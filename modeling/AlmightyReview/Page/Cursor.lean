import AlmightyReview.Lib.Base64
import AlmightyReview.Lib.Sha256
import AlmightyReview.Lib.Written
import AlmightyReview.Db

/-!
# Cursors

The functions of `pagination`: a cursor is a JSON text with a signature, both in base 64.

* `payload`: what is in a cursor. `encodeCursor` refuses a token with more than `maxCursorBytes`.
* `decodeCursor`: the payload of a token whose signature is right, after a check of its fields.
  `loadsBytes` is `json.loads` of `bytes`; `depth` is what is left of the recursion limit.
* `decodeCursor_tokenOf`: a token that is not too long gives what its payload passes on
  (`readPayload_loaded`).
-/

namespace Pagination

open Json

def cursorVersion : Int := 1

def maxCursorBytes : Nat := 4096

def resources : List Text :=
  ["overview".toList, "pr-runs".toList, "run-findings".toList]

def invalidCursor : Exc := .valueError "invalid cursor".toList

/-! ## Tokens -/

/-- `_b64decode`. -/
def b64decode (value : Text) : Option (List Nat) :=
  if value = [] then none else Base64.decode value

/-- `_key`. -/
def key (secret : Text) : List Nat :=
  Sha256.digest (Text.encode "almighty-pagination-v1\x00".toList ++ secret.encode)

/-- `hmac.new(_key(), raw, hashlib.sha256).digest()`. -/
def sign (secret : Text) (raw : List Nat) : List Nat := Sha256.hmac (key secret) raw

def tokenOf (secret : Text) (raw : List Nat) : Text :=
  Base64.encode raw ++ '.' :: Base64.encode (sign secret raw)

/-! ## Encoding -/

def payload (resource : Text) (parent : Option Int) (snapshot : Int) (position : List Value)
    (metadata : List (Text × Value)) : Value :=
  .obj [("v".toList, .int cursorVersion),
    ("resource".toList, .str resource),
    ("parent".toList, ofOption .int parent),
    ("snapshot".toList, .int snapshot),
    ("position".toList, .arr position),
    ("metadata".toList, .obj metadata)]

def encodeCursor (secret resource : Text) (parent : Option Int) (snapshot : Int)
    (position : List Value) (metadata : List (Text × Value)) : Except Exc Text := do
  if !resources.contains resource || snapshot < 0 then throw invalidCursor
  let raw := ((payload resource parent snapshot position metadata).dumps true).encode
  let token := tokenOf secret raw
  if maxCursorBytes < token.encode.length then throw invalidCursor
  pure token

/-! ## Bytes of a JSON text -/

/-- Bytes two by two, the high one first if `big`. -/
def units16 (big : Bool) : List Nat → Option (List Nat)
  | [] => some []
  | a :: b :: m => (units16 big m).map ((if big then 256 * a + b else a + 256 * b) :: ·)
  | [_] => none

/-- Units two by two, the high one first if `big`. -/
def points32 (big : Bool) : List Nat → Option (List Nat)
  | [] => some []
  | a :: b :: m =>
    let n := if big then 65536 * a + b else a + 65536 * b
    if n < 0x110000 then (points32 big m).map (n :: ·) else none
  | [_] => none

def ofUtf16 (big : Bool) (b : List Nat) : Option Text := (units16 big b).map ofUnits

/-- A surrogate, which a `Text` cannot hold, is read as `U+FFFD`. -/
def ofUtf32 (big : Bool) (b : List Nat) : Option Text :=
  ((units16 big b).bind (points32 big)).map fun ns =>
    ns.map fun n => if isHigh n || isLow n then '�' else Char.ofNat n

/-- The text of bytes, in the encoding that `json.detect_encoding` finds. The bytes of a surrogate
in UTF-8 are not read. -/
def decodeText (b : List Nat) : Option Text :=
  if [0, 0, 0xfe, 0xff].isPrefixOf b then ofUtf32 true (b.drop 4)
  else if [0xff, 0xfe, 0, 0].isPrefixOf b then ofUtf32 false (b.drop 4)
  else if [0xfe, 0xff].isPrefixOf b then ofUtf16 true (b.drop 2)
  else if [0xff, 0xfe].isPrefixOf b then ofUtf16 false (b.drop 2)
  else if [0xef, 0xbb, 0xbf].isPrefixOf b then Text.decode (b.drop 3)
  else
    match b with
    | 0 :: 0 :: _ :: _ :: _ => ofUtf32 true b
    | 0 :: _ :: _ :: _ :: _ => ofUtf16 true b
    | _ :: 0 :: 0 :: 0 :: _ => ofUtf32 false b
    | _ :: 0 :: _ :: _ :: _ => ofUtf16 false b
    | [0, _] => ofUtf16 true b
    | [_, 0] => ofUtf16 false b
    | _ => Text.decode b

/-- `json.loads(b)`. -/
def loadsBytes (depth : Nat) (b : List Nat) : Except LoadError Loaded :=
  match decodeText b with
  | some text => loads depth text
  | none => .error .valueError

/-! ## Decoding -/

/-- `v == n` for a `v` that was read. -/
def equalsInt (n : Int) : Loaded → Bool
  | .bool b => (if b then 1 else 0) == n
  | .int m _ => m == n
  | .float (.finite x) => decide (x.val = n)
  | _ => false

def equalsText (s : Text) : Loaded → Bool
  | .str t => t == s
  | _ => false

/-- `v == parent`. -/
def equalsParent : Option Int → Loaded → Bool
  | some n, v => equalsInt n v
  | none, .null => true
  | none, _ => false

/-- An item that a position may have. -/
def isPositionItem : Loaded → Bool
  | .null => true
  | .str s => s.length ≤ 1024
  | .int .. => true
  | .float _ => true
  | _ => false

def payloadKeys : List Text :=
  ["v".toList, "resource".toList, "parent".toList, "snapshot".toList, "position".toList,
    "metadata".toList]

/-- A payload, and its fields that are read from it. -/
structure Payload where
  fields : List (Text × Loaded)
  snapshot : Nat
  position : List Loaded
  metadata : List (Text × Loaded)

/-- The checks of a payload. -/
def readPayload (resource : Text) (parent : Option Int) : Loaded → Option Payload
  | .obj fields => do
    let field (name : String) : Option Loaded := get fields name.toList
    guard ((fields.map Prod.fst).all payloadKeys.contains)
    guard (equalsInt cursorVersion (← field "v"))
    guard (equalsText resource (← field "resource"))
    guard (equalsParent parent (← field "parent"))
    match ← field "snapshot", ← field "position", ← field "metadata" with
    | .int snapshot _, .arr position, .obj metadata =>
      guard (0 ≤ snapshot ∧ position.length ≤ 8 ∧ position.all isPositionItem)
      pure ⟨fields, snapshot.toNat, position, metadata⟩
    | _, _, _ => none
  | _ => none

/-- `RecursionError` is no `ValueError`. -/
def recursionError : Exc := .runtimeError "maximum recursion depth exceeded".toList

variable (depth : Nat) (secret : Text)

/-- The value under the signature. -/
def verified (token : Text) : Except Exc Loaded :=
  match token.splitOn '.' with
  | [encoded, signature] =>
    match b64decode encoded, b64decode signature with
    | some raw, some supplied =>
      if supplied = sign secret raw then
        match loadsBytes depth raw with
        | .ok v => .ok v
        | .error .recursionError => .error recursionError
        | .error _ => .error invalidCursor
      else .error invalidCursor
    | _, _ => .error invalidCursor
  | _ => .error invalidCursor

def decodeCursor (token resource : Text) (parent : Option Int) : Except Exc Payload := do
  if maxCursorBytes < token.encode.length then throw invalidCursor
  let v ← verified depth secret token
  match readPayload resource parent v with
  | some p => pure p
  | none => throw invalidCursor

/-! ## What is encoded is decoded -/

theorem dot_not_mem_encode (m : List Nat) : '.' ∉ Base64.encode m := fun h =>
  absurd (Base64.mem_encode h) (by decide)

theorem b64decode_encode {m : List Nat} (hne : m ≠ []) (h : ∀ b ∈ m, b < 256) :
    b64decode (Base64.encode m) = some m := by
  have hne' : Base64.encode m ≠ [] := by
    intro he
    have := Base64.length_encode m
    rw [he, List.length_nil] at this
    have hpos := List.length_pos_iff.mpr hne
    omega
  rw [b64decode, if_neg hne', Base64.decode_encode h]

/-- The bytes of ASCII that is no `NUL` are read as UTF-8. -/
theorem decodeText_ascii {c d : Char} {s : Text} (h : IsAscii (c :: d :: s)) (hc : c.toNat ≠ 0)
    (hd : d.toNat ≠ 0) : decodeText (Text.encode (c :: d :: s)) = some (c :: d :: s) := by
  have hlt := h c List.mem_cons_self
  have hno : ∀ (a : Nat) (l m : List Nat), 128 ≤ a ∨ a = 0 →
      (a :: l).isPrefixOf (c.toNat :: m) = false := by
    intro a l m ha
    have : (a == c.toNat) = false := beq_eq_false_iff_ne.mpr (by omega)
    rw [List.isPrefixOf_cons_cons, this, Bool.false_and]
  have hdecode : Text.decode (Text.encode (c :: d :: s)) = some (c :: d :: s) :=
    Text.decode_encode _
  rw [encode_of_isAscii h] at hdecode ⊢
  rw [List.map_cons, List.map_cons] at hdecode ⊢
  unfold decodeText
  rw [if_neg, if_neg, if_neg, if_neg, if_neg]
  · split
    · next he => exact absurd (List.cons.inj he).1 hc
    · next he => exact absurd (List.cons.inj he).1 hc
    · next he => exact absurd (List.cons.inj (List.cons.inj he).2).1 hd
    · next he => exact absurd (List.cons.inj (List.cons.inj he).2).1 hd
    · next he => exact absurd (List.cons.inj he).1 hc
    · next he => exact absurd (List.cons.inj (List.cons.inj he).2).1 hd
    · exact hdecode
  all_goals
    rw [hno _ _ _ (by omega)]
    exact Bool.false_ne_true

/-- The text of an object with fields begins with a brace and a quote. -/
theorem exists_dumps_obj {fields : List (Text × Value)} (hne : fields ≠ []) :
    ∃ s, (Value.obj fields).dumps true = '\x7b' :: '"' :: s := by
  have hsort : sortFields fields ≠ [] := by
    intro h
    have := (List.perm_insertionSort (fun a b : Text × Value => a.1 ≤ b.1) fields).length_eq
    rw [show List.insertionSort _ fields = [] from h, List.length_nil] at this
    exact hne (List.length_eq_zero_iff.mp this.symm)
  obtain ⟨f, fs, hf⟩ := List.exists_cons_of_ne_nil hsort
  obtain ⟨s, hs⟩ := join_cons [','] (memberText true f) (fs.map (memberText true))
  rw [dumps_obj, hf, List.map_cons, hs]
  exact ⟨_, rfl⟩

theorem loadsBytes_dumps {fields : List (Text × Value)} (hne : fields ≠ [])
    (h : (Value.obj fields).Readable depth) :
    loadsBytes depth ((Value.obj fields).dumps true).encode = .ok (Value.obj fields).loaded := by
  have hascii := ascii_dumps (.obj fields)
  obtain ⟨s, hs⟩ := exists_dumps_obj hne
  have hloads : loads depth ((Value.obj fields).dumps true) = .ok (Value.obj fields).loaded :=
    loads_dumps h
  unfold loadsBytes
  rw [hs] at hascii hloads ⊢
  rw [decodeText_ascii hascii (by decide) (by decide)]
  exact hloads

/-- **A token** of an object gives the object. -/
theorem verified_tokenOf {fields : List (Text × Value)} (hne : fields ≠ [])
    (h : (Value.obj fields).Readable depth) :
    verified depth secret (tokenOf secret ((Value.obj fields).dumps true).encode) =
      .ok (Value.obj fields).loaded := by
  have hascii := ascii_dumps (.obj fields)
  have hraw : ∀ b ∈ ((Value.obj fields).dumps true).encode, b < 256 := by
    intro b hb
    rw [encode_of_isAscii hascii] at hb
    obtain ⟨c, hc, rfl⟩ := List.mem_map.mp hb
    have := hascii c hc
    omega
  have hrawne : ((Value.obj fields).dumps true).encode ≠ [] := by
    obtain ⟨s, hs⟩ := exists_dumps_obj hne
    rw [encode_of_isAscii hascii, hs]
    exact List.cons_ne_nil _ _
  have hsignne : sign secret ((Value.obj fields).dumps true).encode ≠ [] := by
    intro he
    have := Sha256.length_hmac (key secret) ((Value.obj fields).dumps true).encode
    rw [show Sha256.hmac _ _ = [] from he] at this
    cases this
  unfold verified tokenOf
  rw [List.splitOn_append_cons_self_of_not_mem (dot_not_mem_encode _),
    List.splitOn_eq_singleton (dot_not_mem_encode _)]
  dsimp only
  rw [b64decode_encode hrawne hraw, b64decode_encode hsignne fun b hb => Sha256.hmac_lt hb]
  dsimp only
  rw [if_pos rfl, loadsBytes_dumps depth hne h]

/-- A token has four characters for three bytes, and its signature has 43. -/
theorem length_tokenOf (raw : List Nat) :
    (tokenOf secret raw).encode.length = (4 * raw.length + 2) / 3 + 44 := by
  have hascii : IsAscii (tokenOf secret raw) := by
    have halphabet : ∀ c ∈ Base64.alphabet, c.toNat < 128 := by decide
    exact isAscii_append (fun c hc => halphabet c (Base64.mem_encode hc))
      (isAscii_cons (by decide) fun c hc => halphabet c (Base64.mem_encode hc))
  rw [encode_of_isAscii hascii, List.length_map, tokenOf, List.length_append, List.length_cons,
    Base64.length_encode, Base64.length_encode, sign, Sha256.length_hmac]

/-! ## Payloads -/

variable {depth secret} {resource : Text} {parent : Option Int} {snapshot : Int}
  {position : List Value} {metadata : List (Text × Value)}

/-- The fields of a payload as they are read: in the order of their keys. -/
def loadedPayload (resource : Text) (parent : Option Int) (snapshot : Int) (position : List Value)
    (metadata : List (Text × Value)) : List (Text × Loaded) :=
  [("metadata".toList, (Value.obj metadata).loaded),
    ("parent".toList, (ofOption Value.int parent).loaded),
    ("position".toList, .arr (position.map Value.loaded)),
    ("resource".toList, .str resource),
    ("snapshot".toList, (Value.int snapshot).loaded),
    ("v".toList, (Value.int cursorVersion).loaded)]

theorem loaded_payload : (payload resource parent snapshot position metadata).loaded =
    .obj (loadedPayload resource parent snapshot position metadata) := by
  have hposition : (Value.arr position).loaded = .arr (position.map Value.loaded) := by
    rw [Value.loaded, loadedEach_eq]
  have hresource : (Value.str resource).loaded = .str resource := by
    rw [Value.loaded]
  rw [payload, loaded_obj, loadedPayload, ← hposition, ← hresource]
  rfl

/-- The numbers of a payload are short. -/
structure ShortNumbers (parent : Option Int) (snapshot : Int) : Prop where
  parent : ∀ n ∈ parent, n.natAbs < intLimit
  snapshot : snapshot.natAbs < intLimit

theorem loaded_int {n : Int} (h : n.natAbs < intLimit) : (Value.int n).loaded = .int n h := by
  rw [Value.loaded, dif_pos h]

theorem equalsInt_loaded {m n : Int} (h : n.natAbs < intLimit) :
    equalsInt m (Value.int n).loaded = true ↔ n = m := by
  rw [loaded_int h, equalsInt, beq_iff_eq]

theorem equalsParent_loaded {p : Option Int} (h : ∀ n ∈ parent, n.natAbs < intLimit) :
    equalsParent p (ofOption Value.int parent).loaded = true ↔ p = parent := by
  cases parent with
  | none =>
    rw [ofOption, Value.loaded]
    cases p <;> simp [equalsParent, equalsInt]
  | some n =>
    have hn := h n rfl
    cases p with
    | none =>
      rw [ofOption, loaded_int hn]
      simp [equalsParent]
    | some m =>
      rw [ofOption, equalsParent, equalsInt_loaded hn, Option.some.injEq]
      exact eq_comm

/-- What a position must be to be read. -/
def ReadablePosition (position : List Value) : Prop :=
  position.length ≤ 8 ∧ ∀ v ∈ position, isPositionItem v.loaded = true

/-- A check, and what follows it. -/
theorem ite_bind_eq_some {α : Type} {c : Prop} [Decidable c] {f : Unit → Option α} {a : α} :
    (if c then some () else failure).bind f = some a ↔ c ∧ f () = some a := by
  by_cases hc : c
  · simp [hc]
  · rw [if_neg hc]
    exact ⟨fun h => (by cases h), fun h => absurd h.1 hc⟩

/-- **A payload** is read for its own resource and parent only, and if its position may be. -/
theorem readPayload_loaded {r : Text} {p : Option Int} {q : Payload}
    (hshort : ShortNumbers parent snapshot) (hsnapshot : 0 ≤ snapshot) :
    readPayload r p (payload resource parent snapshot position metadata).loaded = some q ↔
      (r = resource ∧ p = parent ∧ ReadablePosition position) ∧
        ∃ metadata', (Value.obj metadata).loaded = .obj metadata' ∧
          q = ⟨loadedPayload resource parent snapshot position metadata, snapshot.toNat,
            position.map Value.loaded, metadata'⟩ := by
  have hkeys : ((loadedPayload resource parent snapshot position metadata).map Prod.fst).all
      payloadKeys.contains = true := rfl
  have hget : ∀ fields, fields = loadedPayload resource parent snapshot position metadata →
      get fields "v".toList = some (Value.int cursorVersion).loaded ∧
      get fields "resource".toList = some (.str resource) ∧
      get fields "parent".toList = some (ofOption Value.int parent).loaded ∧
      get fields "snapshot".toList = some (Value.int snapshot).loaded ∧
      get fields "position".toList = some (.arr (position.map Value.loaded)) ∧
      get fields "metadata".toList = some (Value.obj metadata).loaded := by
    rintro fields rfl
    exact ⟨rfl, rfl, rfl, rfl, rfl, rfl⟩
  obtain ⟨hv, hr, hp, hs, hpos, hm⟩ := hget _ rfl
  have hversion : equalsInt cursorVersion (Value.int cursorVersion).loaded = true :=
    (equalsInt_loaded (lt_intLimit (by decide))).mpr rfl
  have hresource : equalsText r (.str resource) = true ↔ r = resource := by
    rw [equalsText, beq_iff_eq]
    exact eq_comm
  have hitems : (position.map Value.loaded).all isPositionItem = true ↔
      ∀ v ∈ position, isPositionItem v.loaded = true := by
    simp
  rw [loaded_payload, readPayload]
  dsimp only
  rw [hv, hr, hp, hs, hpos, hm, hkeys, loaded_int hshort.snapshot, loaded_obj]
  simp only [guard, Option.bind_eq_bind, Option.bind_some, hversion, if_true, Option.pure_def,
    ite_bind_eq_some, hresource, equalsParent_loaded hshort.parent, hitems, hsnapshot, true_and,
    List.length_map, Option.some.injEq, Loaded.obj.injEq, exists_eq_left', ReadablePosition,
    and_assoc, eq_comm (a := q)]

/-! ## Tokens of payloads -/

theorem length_encode_dumps (v : Value) : (v.dumps true).encode.length = (v.dumps true).length := by
  rw [encode_of_isAscii (ascii_dumps v), List.length_map]

/-- The bytes under the signature. -/
def rawOf (resource : Text) (parent : Option Int) (snapshot : Int) (position : List Value)
    (metadata : List (Text × Value)) : List Nat :=
  ((payload resource parent snapshot position metadata).dumps true).encode

/-- The greatest number of characters of a payload. -/
def maxPayloadChars : Nat := 3039

/-- A token is issued if its payload is not too long. -/
theorem encodeCursor_ok {token : Text} (hresource : resources.contains resource = true)
    (hsnapshot : 0 ≤ snapshot) :
    encodeCursor secret resource parent snapshot position metadata = .ok token ↔
      ((payload resource parent snapshot position metadata).dumps true).length ≤ maxPayloadChars ∧
        token = tokenOf secret (rawOf resource parent snapshot position metadata) := by
  have hlen := length_tokenOf secret (rawOf resource parent snapshot position metadata)
  rw [rawOf, length_encode_dumps] at hlen
  have hcond : (!resources.contains resource || decide (snapshot < 0)) = false := by
    rw [hresource, decide_eq_false (by omega)]
    rfl
  unfold encodeCursor
  rw [hcond]
  simp only [Bool.false_eq_true, if_false]
  by_cases hlong : maxCursorBytes < (tokenOf secret (rawOf resource parent snapshot position
      metadata)).encode.length
  · have hno : ¬((payload resource parent snapshot position metadata).dumps true).length ≤
        maxPayloadChars := by
      rw [rawOf, hlen] at hlong
      unfold maxCursorBytes at hlong
      unfold maxPayloadChars
      omega
    rw [rawOf] at hlong
    rw [if_pos hlong]
    exact ⟨fun h => (by cases h), fun h => absurd h.1 hno⟩
  · have hyes : ((payload resource parent snapshot position metadata).dumps true).length ≤
        maxPayloadChars := by
      rw [rawOf, hlen] at hlong
      unfold maxCursorBytes at hlong
      unfold maxPayloadChars
      omega
    rw [rawOf] at hlong
    rw [if_neg hlong]
    exact ⟨fun h => ⟨hyes, (Except.ok.inj h).symm⟩, fun h => congrArg Except.ok h.2.symm⟩

/-- **A token that was issued** is read as its payload passes the checks. -/
theorem decodeCursor_tokenOf {r : Text} {p : Option Int}
    (hlen : ((payload resource parent snapshot position metadata).dumps true).length ≤
      maxPayloadChars)
    (hread : (payload resource parent snapshot position metadata).Readable depth) :
    decodeCursor depth secret (tokenOf secret (rawOf resource parent snapshot position metadata))
        r p =
      match readPayload r p (payload resource parent snapshot position metadata).loaded with
      | some q => .ok q
      | none => .error invalidCursor := by
  have hshort : ¬maxCursorBytes < (tokenOf secret (rawOf resource parent snapshot position
      metadata)).encode.length := by
    rw [length_tokenOf, rawOf, length_encode_dumps]
    unfold maxPayloadChars at hlen
    unfold maxCursorBytes
    omega
  have hverified : verified depth secret (tokenOf secret (rawOf resource parent snapshot position
      metadata)) = .ok (payload resource parent snapshot position metadata).loaded :=
    verified_tokenOf depth secret (List.cons_ne_nil _ _) hread
  unfold decodeCursor
  rw [if_neg hshort, hverified]
  rfl

end Pagination
