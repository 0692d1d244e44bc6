import AlmightyReview.Lib.Decimal

/-!
# JSON texts that are read

`json.loads` of the Python standard library.

* `Loaded`: what it returns. An integer has at most 4300 digits, and a float may be infinite or no
  number. The keys of an object are distinct.
* `loads depth text`: the value of a text, read by recursive descent. A value with more than `depth`
  containers in one another reaches the recursion limit of the interpreter.
* `scanOnce_weight`: a value has no more parts than its text has characters, so what is left of a
  text is shorter (`scanOnce_lt`).
* `scanOnce_fuel`: the fuel that `loads` gives is enough.
-/

namespace Json

/-! ## Values -/

/-- A `float`. -/
inductive PyFloat where
  | finite (x : Double)
  | inf (negative : Bool)
  | nan
  deriving DecidableEq

/-- The least number that has more digits than `int` reads and `str` writes. -/
@[irreducible] def intLimit : Nat := 10 ^ 4300

theorem lt_intLimit {n : Nat} (h : n < 10 ^ 20) : n < intLimit := by
  unfold intLimit
  exact lt_of_lt_of_le h (Nat.pow_le_pow_right (by decide) (by decide))

inductive Loaded where
  | null
  | bool (b : Bool)
  | int (n : Int) (short : n.natAbs < intLimit)
  | float (x : PyFloat)
  | str (s : Text)
  | arr (xs : List Loaded)
  | obj (fields : List (Text × Loaded))

mutual

/-- The values are the same, and of the same type. -/
def Loaded.same : Loaded → Loaded → Bool
  | .null, .null => true
  | .bool a, .bool b => a == b
  | .int m _, .int n _ => m == n
  | .float x, .float y => decide (x = y)
  | .str s, .str t => s == t
  | .arr xs, .arr ys => sameEach xs ys
  | .obj fields, .obj fields' => sameFields fields fields'
  | _, _ => false

def sameEach : List Loaded → List Loaded → Bool
  | [], [] => true
  | v :: vs, w :: ws => v.same w && sameEach vs ws
  | _, _ => false

def sameFields : List (Text × Loaded) → List (Text × Loaded) → Bool
  | [], [] => true
  | f :: fields, g :: fields' => f.1 == g.1 && f.2.same g.2 && sameFields fields fields'
  | _, _ => false

end

mutual

theorem Loaded.same_iff : (v w : Loaded) → (v.same w = true ↔ v = w)
  | .null, w => by cases w <;> simp [Loaded.same]
  | .bool b, w => by cases w <;> simp [Loaded.same]
  | .int n _, w => by cases w <;> simp [Loaded.same]
  | .float x, w => by cases w <;> simp [Loaded.same]
  | .str s, w => by cases w <;> simp [Loaded.same]
  | .arr xs, w => by cases w <;> simp [Loaded.same, sameEach_iff xs]
  | .obj fields, w => by cases w <;> simp [Loaded.same, sameFields_iff fields]

theorem sameEach_iff : (vs ws : List Loaded) → (sameEach vs ws = true ↔ vs = ws)
  | [], ws => by cases ws <;> simp [sameEach]
  | v :: vs, ws => by cases ws <;> simp [sameEach, v.same_iff, sameEach_iff vs]

theorem sameFields_iff : (fields fields' : List (Text × Loaded)) →
    (sameFields fields fields' = true ↔ fields = fields')
  | [], fields' => by cases fields' <;> simp [sameFields]
  | f :: fields, fields' => by
    cases fields' <;> simp [sameFields, f.2.same_iff, sameFields_iff fields, Prod.ext_iff]

end

instance : DecidableEq Loaded := fun v w => decidable_of_iff _ (v.same_iff w)

inductive LoadError where
  /-- `JSONDecodeError`. -/
  | decodeError
  /-- The `ValueError` for an integer with too many digits. -/
  | valueError
  /-- `RecursionError`, which is no `ValueError`. -/
  | recursionError
  deriving DecidableEq

/-- `d[key] = v`: a key that is there stays at its place. -/
def setItem (key : Text) (v : Loaded) : List (Text × Loaded) → List (Text × Loaded)
  | [] => [(key, v)]
  | f :: fields => if f.1 = key then (key, v) :: fields else f :: setItem key v fields

/-- `d.get(key)`. -/
def get (fields : List (Text × Loaded)) (key : Text) : Option Loaded :=
  (fields.find? fun f => f.1 = key).map Prod.snd

/-! ## Strings -/

/-- The value of a hexadecimal digit. -/
def hexValue (c : Char) : Option Nat :=
  let n := c.toNat
  if 48 ≤ n ∧ n ≤ 57 then some (n - 48)
  else if 97 ≤ n ∧ n ≤ 102 then some (n - 87)
  else if 65 ≤ n ∧ n ≤ 70 then some (n - 55)
  else none

/-- The code point of an escape with one character. -/
def simpleEscape (c : Char) : Option Nat :=
  if c = '"' ∨ c = '\\' ∨ c = '/' then some c.toNat
  else if c = 'b' then some 8
  else if c = 'f' then some 12
  else if c = 'n' then some 10
  else if c = 'r' then some 13
  else if c = 't' then some 9
  else none

/-- The code points of a string up to its closing quote, and the rest. -/
def scanUnits : Text → Option (List Nat × Text)
  | [] => none
  | '"' :: s => some ([], s)
  | '\\' :: 'u' :: a :: b :: c :: d :: s => do
    let n := 4096 * (← hexValue a) + 256 * (← hexValue b) + 16 * (← hexValue c) + (← hexValue d)
    let (units, rest) ← scanUnits s
    pure (n :: units, rest)
  | '\\' :: e :: s => do
    let n ← simpleEscape e
    let (units, rest) ← scanUnits s
    pure (n :: units, rest)
  | c :: s =>
    if c.toNat < 32 then none
    else (scanUnits s).map fun r => (c.toNat :: r.1, r.2)

def isHigh (n : Nat) : Bool := 0xd800 ≤ n && n ≤ 0xdbff

def isLow (n : Nat) : Bool := 0xdc00 ≤ n && n ≤ 0xdfff

/-- The text of code points: a high and a low surrogate are one character. One that is alone, which
a `Text` cannot hold, is read as `U+FFFD`. -/
def ofUnits : List Nat → Text
  | [] => []
  | n :: m :: units =>
    if isHigh n && isLow m then
      Char.ofNat (0x10000 + 1024 * (n - 0xd800) + (m - 0xdc00)) :: ofUnits units
    else (if isHigh n || isLow n then '�' else Char.ofNat n) :: ofUnits (m :: units)
  | [n] => [if isHigh n || isLow n then '�' else Char.ofNat n]

/-- `scanstring`: the text from behind the opening quote on. -/
def scanString (s : Text) : Except LoadError (Text × Text) :=
  match scanUnits s with
  | some (units, rest) => .ok (ofUnits units, rest)
  | none => .error .decodeError

/-! ## Numbers -/

/-- The digits before a point: one zero, or digits that do not begin with zero. -/
def scanInt : Text → Option (Text × Text)
  | '0' :: s => some (['0'], s)
  | c :: s =>
    if Decimal.isDigit c then
      some (c :: s.takeWhile Decimal.isDigit, s.dropWhile Decimal.isDigit)
    else none
  | [] => none

/-- A point and the digits behind it. -/
def scanFrac : Text → Option Text × Text
  | '.' :: c :: s =>
    if Decimal.isDigit c then
      (some (c :: s.takeWhile Decimal.isDigit), s.dropWhile Decimal.isDigit)
    else (none, '.' :: c :: s)
  | s => (none, s)

/-- The sign of an exponent. -/
def scanSign : Text → Bool × Text
  | '-' :: s => (true, s)
  | '+' :: s => (false, s)
  | s => (false, s)

/-- An exponent, if it has digits. -/
def scanExponent : Text → Option (Bool × Text) × Text
  | e :: s =>
    let (negative, t) := scanSign s
    if (e = 'e' ∨ e = 'E') ∧ t.takeWhile Decimal.isDigit ≠ [] then
      (some (negative, t.takeWhile Decimal.isDigit), t.dropWhile Decimal.isDigit)
    else (none, e :: s)
  | [] => (none, [])

/-- The integer with these digits. -/
def ofDigits (negative : Bool) (ds : Text) : Except LoadError Loaded :=
  let n : Int := if negative then -(Decimal.digitsValue ds) else Decimal.digitsValue ds
  if h : n.natAbs < intLimit then .ok (.int n h) else .error .valueError

/-- `float` of a decimal. -/
def ofDecimal (negative : Bool) (d : Decimal) : PyFloat :=
  match Double.ofDecimal negative d with
  | some x => .finite x
  | none => .inf negative

/-- A number without its sign. -/
def scanUnsigned (negative : Bool) (s : Text) : Except LoadError (Loaded × Text) :=
  match scanInt s with
  | none => .error .decodeError
  | some (int, s) =>
    let (frac, s) := scanFrac s
    let (exponent, s) := scanExponent s
    if frac.isNone && exponent.isNone then (ofDigits negative int).map fun v => (v, s)
    else .ok (.float (ofDecimal negative ⟨int, frac, exponent⟩), s)

/-- A value without parts that is no string. -/
def scanAtom (s : Text) : Except LoadError (Loaded × Text) :=
  if s.startsWith "null".toList then .ok (.null, s.drop 4)
  else if s.startsWith "true".toList then .ok (.bool true, s.drop 4)
  else if s.startsWith "false".toList then .ok (.bool false, s.drop 5)
  else if s.startsWith "NaN".toList then .ok (.float .nan, s.drop 3)
  else if s.startsWith "Infinity".toList then .ok (.float (.inf false), s.drop 8)
  else if s.startsWith "-Infinity".toList then .ok (.float (.inf true), s.drop 9)
  else
    match s with
    | '-' :: s => scanUnsigned true s
    | s => scanUnsigned false s

/-! ## Containers -/

def isBlank (c : Char) : Bool := c == ' ' || c == '\t' || c == '\n' || c == '\r'

def skipBlanks (s : Text) : Text := s.dropWhile isBlank

mutual

/-- The value at the beginning of a text, and the rest. A container in `depth` others is one too
many. -/
def scanOnce : Nat → Nat → Text → Except LoadError (Loaded × Text)
  | 0, _, _ => .error .decodeError
  | _ + 1, _, '"' :: s => (scanString s).map fun r => (.str r.1, r.2)
  | _ + 1, 0, '{' :: _ => .error .recursionError
  | fuel + 1, depth + 1, '{' :: s =>
    match skipBlanks s with
    | '}' :: s => .ok (.obj [], s)
    | s => (scanMembers fuel depth [] s).map fun r => (.obj r.1, r.2)
  | _ + 1, 0, '[' :: _ => .error .recursionError
  | fuel + 1, depth + 1, '[' :: s =>
    match skipBlanks s with
    | ']' :: s => .ok (.arr [], s)
    | s => (scanElements fuel depth s).map fun r => (.arr r.1, r.2)
  | _ + 1, _, s => scanAtom s

/-- The members of an object from a key on, added to those before. -/
def scanMembers : Nat → Nat → List (Text × Loaded) → Text →
    Except LoadError (List (Text × Loaded) × Text)
  | 0, _, _, _ => .error .decodeError
  | fuel + 1, depth, fields, '"' :: s => do
    let (key, s) ← scanString s
    match skipBlanks s with
    | ':' :: s =>
      let (v, s) ← scanOnce fuel depth (skipBlanks s)
      match skipBlanks s with
      | '}' :: s => pure (setItem key v fields, s)
      | ',' :: s => scanMembers fuel depth (setItem key v fields) (skipBlanks s)
      | _ => .error .decodeError
    | _ => .error .decodeError
  | _ + 1, _, _, _ => .error .decodeError

/-- The elements of an array. -/
def scanElements : Nat → Nat → Text → Except LoadError (List Loaded × Text)
  | 0, _, _ => .error .decodeError
  | fuel + 1, depth, s => do
    let (v, s) ← scanOnce fuel depth s
    match skipBlanks s with
    | ']' :: s => pure ([v], s)
    | ',' :: s =>
      let (vs, s) ← scanElements fuel depth (skipBlanks s)
      pure (v :: vs, s)
    | _ => .error .decodeError

end

/-- `json.loads`. -/
def loads (depth : Nat) (text : Text) : Except LoadError Loaded := do
  if text.startsWith ['\uFEFF'] then .error .decodeError
  else
    let (v, s) ← scanOnce (2 * text.length + 1) depth (skipBlanks text)
    if skipBlanks s = [] then pure v else .error .decodeError

/-! ## What is read -/

theorem bind_eq_ok {ε α β : Type} {x : Except ε α} {f : α → Except ε β} {b : β} :
    x >>= f = .ok b ↔ ∃ a, x = .ok a ∧ f a = .ok b := by
  cases x with
  | error e => exact ⟨fun h => (by cases h), fun ⟨a, h, _⟩ => (by cases h)⟩
  | ok a => exact ⟨fun h => ⟨a, rfl, h⟩, fun ⟨_, rfl, h⟩ => h⟩

theorem map_eq_ok {ε α β : Type} {x : Except ε α} {f : α → β} {b : β} :
    x.map f = .ok b ↔ ∃ a, x = .ok a ∧ f a = b := by
  cases x with
  | error e => exact ⟨fun h => (by cases h), fun ⟨a, h, _⟩ => (by cases h)⟩
  | ok a => exact ⟨fun h => ⟨a, rfl, Except.ok.inj h⟩, fun ⟨_, rfl, h⟩ => congrArg Except.ok h⟩

mutual

/-- The number of parts of a value, itself among them. -/
def Loaded.weight : Loaded → Nat
  | .arr xs => weightEach xs + 1
  | .obj fields => weightFields fields + 1
  | _ => 1

def weightEach : List Loaded → Nat
  | [] => 0
  | v :: vs => v.weight + weightEach vs

def weightFields : List (Text × Loaded) → Nat
  | [] => 0
  | f :: fields => f.2.weight + weightFields fields

end

theorem weightFields_setItem (key : Text) (v : Loaded) (fields : List (Text × Loaded)) :
    weightFields (setItem key v fields) ≤ weightFields fields + v.weight := by
  induction fields with
  | nil => simp [setItem, weightFields]
  | cons f fields ih =>
    rw [setItem]
    split
    · simp only [weightFields]
      omega
    · simp only [weightFields]
      omega

theorem length_skipBlanks (s : Text) : (skipBlanks s).length ≤ s.length :=
  (List.dropWhile_suffix _).length_le

theorem scanUnits_lt {s rest : Text} {units : List Nat} (h : scanUnits s = some (units, rest)) :
    rest.length < s.length := by
  fun_induction scanUnits s generalizing units with
  | case1 => cases h
  | case2 s =>
    cases h
    simp
  | case3 a b c d s ih =>
    simp only [Option.bind_eq_bind, Option.bind_eq_some_iff, Option.pure_def,
      Option.some.injEq, Prod.mk.injEq] at h
    obtain ⟨-, -, -, -, -, -, -, -, ⟨us, r⟩, hr, -, rfl⟩ := h
    have : r.length < _ := ih hr
    simp only [List.length_cons]
    omega
  | case4 e s hu ih =>
    simp only [Option.bind_eq_bind, Option.bind_eq_some_iff, Option.pure_def,
      Option.some.injEq, Prod.mk.injEq] at h
    obtain ⟨-, -, ⟨us, r⟩, hr, -, rfl⟩ := h
    have : r.length < _ := ih hr
    simp only [List.length_cons]
    omega
  | case5 c s hq hu he hc => cases h
  | case6 c s hq hu he hc ih =>
    simp only [Option.map_eq_some_iff, Prod.mk.injEq] at h
    obtain ⟨⟨us, r⟩, hr, -, rfl⟩ := h
    have : r.length < _ := ih hr
    simp only [List.length_cons]
    omega

theorem scanString_lt {s t rest : Text} (h : scanString s = .ok (t, rest)) :
    rest.length < s.length := by
  unfold scanString at h
  split at h
  · next units r hr =>
    cases h
    exact scanUnits_lt hr
  · cases h

theorem scanInt_lt {s ds rest : Text} (h : scanInt s = some (ds, rest)) :
    rest.length < s.length := by
  unfold scanInt at h
  split at h
  · cases h
    simp
  · next c s hc =>
    split at h
    · cases h
      have := (List.dropWhile_suffix (l := s) Decimal.isDigit).length_le
      simp only [List.length_cons]
      omega
    · cases h
  · cases h

theorem length_scanFrac (s : Text) : (scanFrac s).2.length ≤ s.length := by
  fun_cases scanFrac s with
  | case1 c s hd =>
    have := (List.dropWhile_suffix (l := s) Decimal.isDigit).length_le
    simp only [List.length_cons]
    omega
  | case2 c s hd => exact le_rfl
  | case3 => exact le_rfl

theorem length_scanSign (s : Text) : (scanSign s).2.length ≤ s.length := by
  fun_cases scanSign s with
  | case1 s => exact Nat.le_succ _
  | case2 s => exact Nat.le_succ _
  | case3 => exact le_rfl

theorem length_scanExponent (s : Text) : (scanExponent s).2.length ≤ s.length := by
  cases s with
  | nil => exact le_rfl
  | cons e s =>
    have hsign := length_scanSign s
    have hdrop := (List.dropWhile_suffix (l := (scanSign s).2) Decimal.isDigit).length_le
    rw [scanExponent]
    dsimp only
    split
    · simp only [List.length_cons]
      omega
    · exact le_rfl

theorem ofDigits_weight {negative : Bool} {ds : Text} {v : Loaded}
    (h : ofDigits negative ds = .ok v) : v.weight = 1 := by
  unfold ofDigits at h
  generalize (if negative = true then _ else _ : Int) = n at h
  dsimp only at h
  split at h
  · obtain rfl := Except.ok.inj h
    rfl
  · cases h

theorem scanUnsigned_weight {negative : Bool} {s rest : Text} {v : Loaded}
    (h : scanUnsigned negative s = .ok (v, rest)) : v.weight + rest.length ≤ s.length := by
  unfold scanUnsigned at h
  split at h
  · cases h
  · next int t hint =>
    have hlt := scanInt_lt hint
    have hfrac := length_scanFrac t
    have hexp := length_scanExponent (scanFrac t).2
    dsimp only at h
    split at h
    · obtain ⟨w, hw, he⟩ := map_eq_ok.mp h
      obtain ⟨rfl, rfl⟩ := Prod.mk.inj he
      have := ofDigits_weight hw
      omega
    · cases h
      simp only [Loaded.weight]
      omega

theorem scanAtom_weight {s rest : Text} {v : Loaded} (h : scanAtom s = .ok (v, rest)) :
    v.weight + rest.length ≤ s.length := by
  -- a constant with its name at the beginning
  have hname : ∀ {p : Text} {n : Nat} {w : Loaded}, s.startsWith p = true → p.length = n + 1 →
      w.weight = 1 → w.weight + (s.drop (n + 1)).length ≤ s.length := by
    intro p n w hs hp hw
    have := (List.isPrefixOf_iff_prefix.mp hs).length_le
    rw [List.length_drop, hw]
    omega
  unfold scanAtom at h
  split at h
  · next hs => cases h; exact hname hs rfl rfl
  split at h
  · next hs => cases h; exact hname hs rfl rfl
  split at h
  · next hs => cases h; exact hname hs rfl rfl
  split at h
  · next hs => cases h; exact hname hs rfl rfl
  split at h
  · next hs => cases h; exact hname hs rfl rfl
  split at h
  · next hs => cases h; exact hname hs rfl rfl
  split at h
  · have := scanUnsigned_weight h
    simp only [List.length_cons]
    omega
  · exact scanUnsigned_weight h

/-- **Parts.** A value that is read has no more parts than its text has characters. -/
theorem scan_weight (fuel : Nat) :
    (∀ {depth s v rest}, scanOnce fuel depth s = .ok (v, rest) →
      v.weight + rest.length ≤ s.length) ∧
    (∀ {depth fields s fields' rest}, scanMembers fuel depth fields s = .ok (fields', rest) →
      weightFields fields' + rest.length ≤ weightFields fields + s.length) ∧
    (∀ {depth s vs rest}, scanElements fuel depth s = .ok (vs, rest) →
      weightEach vs + rest.length ≤ s.length) := by
  induction fuel with
  | zero =>
    refine ⟨fun h => ?_, fun h => ?_, fun h => ?_⟩
    · rw [scanOnce] at h
      cases h
    · rw [scanMembers] at h
      cases h
    · rw [scanElements] at h
      cases h
  | succ fuel ih =>
    obtain ⟨honce, hmembers, helements⟩ := ih
    refine ⟨fun {depth s v rest} h => ?_, fun {depth fields s fields' rest} h => ?_,
      fun {depth s vs rest} h => ?_⟩
    · unfold scanOnce at h
      split at h
      · contradiction
      · next s he =>
        obtain ⟨⟨t, r⟩, hr, he⟩ := map_eq_ok.mp h
        obtain ⟨rfl, rfl⟩ := Prod.mk.inj he
        have := scanString_lt hr
        simp only [Loaded.weight, List.length_cons]
        omega
      · cases h
      · next fuel' depth s hf =>
        cases hf
        have hskip := length_skipBlanks s
        split at h
        · next t ht =>
          cases h
          rw [ht, List.length_cons] at hskip
          simp only [Loaded.weight, weightFields, List.length_cons]
          omega
        · obtain ⟨⟨fields, r⟩, hr, he⟩ := map_eq_ok.mp h
          obtain ⟨rfl, rfl⟩ := Prod.mk.inj he
          have := hmembers hr
          simp only [Loaded.weight, weightFields, List.length_cons] at this ⊢
          omega
      · cases h
      · next fuel' depth s hf =>
        cases hf
        have hskip := length_skipBlanks s
        split at h
        · next t ht =>
          cases h
          rw [ht, List.length_cons] at hskip
          simp only [Loaded.weight, weightEach, List.length_cons]
          omega
        · obtain ⟨⟨vs, r⟩, hr, he⟩ := map_eq_ok.mp h
          obtain ⟨rfl, rfl⟩ := Prod.mk.inj he
          have := helements hr
          simp only [Loaded.weight, List.length_cons]
          omega
      · exact scanAtom_weight h
    · unfold scanMembers at h
      split at h
      · contradiction
      · next depth fields _ _ _ _ fuel' s hf =>
        cases hf
        obtain ⟨⟨key, s₁⟩, hkey, h⟩ := bind_eq_ok.mp h
        have h₁ := scanString_lt hkey
        have hskip₁ := length_skipBlanks s₁
        dsimp only at h
        split at h
        · next s₂ hs₂ =>
          obtain ⟨⟨v, s₃⟩, hv, h⟩ := bind_eq_ok.mp h
          have h₃ := honce hv
          have hskip₂ := length_skipBlanks s₂
          have hskip₃ := length_skipBlanks s₃
          have hset := weightFields_setItem key v fields
          rw [hs₂, List.length_cons] at hskip₁
          dsimp only at h
          split at h
          · next s₄ hs₄ =>
            cases h
            rw [hs₄, List.length_cons] at hskip₃
            simp only [List.length_cons]
            omega
          · next s₄ hs₄ =>
            have hrest := hmembers h
            have hskip₄ := length_skipBlanks s₄
            rw [hs₄, List.length_cons] at hskip₃
            simp only [List.length_cons]
            omega
          · cases h
        · cases h
      · cases h
    · unfold scanElements at h
      obtain ⟨⟨v, s₁⟩, hv, h⟩ := bind_eq_ok.mp h
      have h₁ := honce hv
      have hskip₁ := length_skipBlanks s₁
      dsimp only at h
      split at h
      · next s₂ hs₂ =>
        cases h
        rw [hs₂, List.length_cons] at hskip₁
        simp only [weightEach]
        omega
      · next s₂ hs₂ =>
        obtain ⟨⟨vs, s₃⟩, hvs, h⟩ := bind_eq_ok.mp h
        cases h
        have h₃ := helements hvs
        have hskip₂ := length_skipBlanks s₂
        rw [hs₂, List.length_cons] at hskip₁
        simp only [weightEach]
        omega
      · cases h

theorem loads_weight {depth : Nat} {text : Text} {v : Loaded} (h : loads depth text = .ok v) :
    v.weight ≤ text.length := by
  have hskip := length_skipBlanks text
  unfold loads at h
  split at h
  · cases h
  · obtain ⟨⟨w, s⟩, hw, h⟩ := bind_eq_ok.mp h
    have := (scan_weight _).1 hw
    dsimp only at h
    split at h
    · cases h
      omega
    · cases h

/-! ## Fuel -/

/-- A text that begins with no quote, brace or bracket. -/
theorem scanOnce_atom {fuel depth : Nat} {c : Char} {s : Text} (hq : c ≠ '"') (ho : c ≠ '{')
    (ha : c ≠ '[') : scanOnce (fuel + 1) depth (c :: s) = scanAtom (c :: s) := by
  unfold scanOnce
  split
  · contradiction
  · next he => exact absurd (List.cons.inj he).1 hq
  · next he => exact absurd (List.cons.inj he).1 ho
  · next he => exact absurd (List.cons.inj he).1 ho
  · next he => exact absurd (List.cons.inj he).1 ha
  · next he => exact absurd (List.cons.inj he).1 ha
  · rfl

/-- **Fuel.** More than two units for each character change nothing; the elements of an array need
one more, since they begin where the first of them does. -/
theorem scan_fuel (fuel : Nat) :
    (∀ {depth s}, 2 * s.length < fuel →
      scanOnce (fuel + 1) depth s = scanOnce fuel depth s) ∧
    (∀ {depth fields s}, 2 * s.length < fuel →
      scanMembers (fuel + 1) depth fields s = scanMembers fuel depth fields s) ∧
    (∀ {depth s}, 2 * s.length + 1 < fuel →
      scanElements (fuel + 1) depth s = scanElements fuel depth s) := by
  induction fuel with
  | zero => exact ⟨fun h => absurd h (Nat.not_lt_zero _), fun h => absurd h (Nat.not_lt_zero _),
      fun h => absurd h (Nat.not_lt_zero _)⟩
  | succ fuel ih =>
    obtain ⟨honce, hmembers, helements⟩ := ih
    refine ⟨fun {depth s} hs => ?_, fun {depth fields s} hs => ?_, fun {depth s} hs => ?_⟩
    · cases s with
      | nil => rfl
      | cons c s =>
        have hskip := length_skipBlanks s
        rw [List.length_cons] at hs
        by_cases hq : c = '"'
        · subst hq
          rw [scanOnce, scanOnce]
        by_cases ho : c = '{'
        · subst ho
          cases depth with
          | zero => rw [scanOnce, scanOnce]
          | succ depth =>
            rw [scanOnce, scanOnce]
            split
            · rfl
            · rw [hmembers (by omega)]
        by_cases ha : c = '['
        · subst ha
          cases depth with
          | zero => rw [scanOnce, scanOnce]
          | succ depth =>
            rw [scanOnce, scanOnce]
            split
            · rfl
            · rw [helements (by omega)]
        · rw [scanOnce_atom hq ho ha, scanOnce_atom hq ho ha]
    · cases s with
      | nil => rfl
      | cons c s =>
        rw [List.length_cons] at hs
        by_cases hc : c = '"'
        · subst hc
          rw [scanMembers, scanMembers]
          cases hkey : scanString s with
          | error e => rfl
          | ok r =>
            obtain ⟨key, s₁⟩ := r
            have h₁ := scanString_lt hkey
            have hskip₁ := length_skipBlanks s₁
            simp only [bind, Except.bind]
            split
            · next s₂ hs₂ =>
              have hskip₂ := length_skipBlanks s₂
              rw [hs₂, List.length_cons] at hskip₁
              rw [honce (by omega)]
              cases hv : scanOnce fuel depth (skipBlanks s₂) with
              | error e => rfl
              | ok r =>
                obtain ⟨v, s₃⟩ := r
                have h₃ := (scan_weight fuel).1 hv
                have hskip₃ := length_skipBlanks s₃
                dsimp only
                split
                · rfl
                · next s₄ hs₄ =>
                  have hskip₄ := length_skipBlanks s₄
                  rw [hs₄, List.length_cons] at hskip₃
                  exact hmembers (by omega)
                · rfl
            · rfl
        · unfold scanMembers
          split
          · contradiction
          · next he => exact absurd (List.cons.inj he).1 hc
          · rfl
    · rw [scanElements, scanElements, honce (by omega)]
      cases hv : scanOnce fuel depth s with
      | error e => rfl
      | ok r =>
        obtain ⟨v, s₁⟩ := r
        have h₁ := (scan_weight fuel).1 hv
        have hskip₁ := length_skipBlanks s₁
        simp only [bind, Except.bind]
        split
        · rfl
        · next s₂ hs₂ =>
          have hskip₂ := length_skipBlanks s₂
          rw [hs₂, List.length_cons] at hskip₁
          rw [helements (by omega)]
        · rfl

theorem loads_fuel {depth fuel : Nat} {text : Text} (h : 2 * text.length < fuel) :
    scanOnce fuel depth (skipBlanks text) =
      scanOnce (2 * text.length + 1) depth (skipBlanks text) := by
  have hskip := length_skipBlanks text
  induction fuel with
  | zero => omega
  | succ fuel ih =>
    rcases Nat.lt_or_ge (2 * text.length) fuel with hlt | hge
    · rw [(scan_fuel fuel).1 (by omega), ih hlt]
    · rw [show fuel = 2 * text.length by omega]

/-! ## Objects -/

/-- The fields of an object that is read. -/
def fieldsOf {ε : Type} : Except ε Loaded → Option (List (Text × Loaded))
  | .ok (.obj fields) => some fields
  | _ => none

theorem exists_fields {ε : Type} {r : Except ε Loaded} (h : (fieldsOf r).isSome = true) :
    ∃ fields, r = .ok (.obj fields) := by
  fun_cases fieldsOf r with
  | case1 fields => exact ⟨fields, rfl⟩
  | case2 r hr =>
    rw [fieldsOf] at h
    · cases h
    · exact hr

theorem weight_le_of_mem {fields : List (Text × Loaded)} {f : Text × Loaded} (h : f ∈ fields) :
    f.2.weight ≤ weightFields fields := by
  induction fields with
  | nil => cases h
  | cons g fields ih =>
    rw [weightFields]
    rcases List.mem_cons.mp h with rfl | h
    · exact Nat.le_add_right _ _
    · exact Nat.le_add_left_of_le (ih h)

theorem weight_get_le {fields : List (Text × Loaded)} {key : Text} {v : Loaded}
    (h : get fields key = some v) : v.weight ≤ weightFields fields := by
  obtain ⟨f, hf, rfl⟩ := Option.map_eq_some_iff.mp h
  exact weight_le_of_mem (List.mem_of_find?_eq_some hf)

theorem length_le_weightEach (xs : List Loaded) : xs.length ≤ weightEach xs := by
  have hpos : ∀ v : Loaded, 1 ≤ v.weight := by
    intro v
    cases v with
    | arr xs => exact Nat.le_add_left 1 _
    | obj fields => exact Nat.le_add_left 1 _
    | _ => exact le_rfl
  induction xs with
  | nil => exact le_rfl
  | cons x xs ih =>
    have := hpos x
    rw [weightEach, List.length_cons]
    omega

end Json
