import AlmightyReview.Lib.Text
import Mathlib.Data.List.GetD

/-!
# Base 64 for URLs

`base64.urlsafe_b64encode` and its inverse on lists of bytes, without the padding at the end.

* `Base64.encode`: three bytes are four digits; one or two bytes at the end are two or three.
* `Base64.decode`: the bytes of a text of digits. The bits that a last digit has too many are
  ignored, and a single last digit is an error.
* `decode_encode`: decoding inverts encoding.
-/

namespace Base64

/-! ## Digits -/

def alphabet : Text := "ABCDEFGHIJKLMNOPQRSTUVWXYZabcdefghijklmnopqrstuvwxyz0123456789-_".toList

/-- The digit of six bits. -/
def digit (n : Nat) : Char := alphabet.getD n 'A'

/-- The six bits of a digit. -/
def value (c : Char) : Option Nat := alphabet.idxOf? c

theorem value_digit {n : Nat} (h : n < 64) : value (digit n) = some n := by
  have hall : ∀ n < 64, value (digit n) = some n := by decide +kernel
  exact hall n h

theorem digit_mem (n : Nat) : digit n ∈ alphabet := by
  unfold digit
  by_cases h : n < alphabet.length
  · rw [List.getD_eq_getElem _ _ h]
    exact List.getElem_mem h
  · rw [List.getD_eq_default _ _ (by omega)]
    decide

/-! ## Bytes -/

def encode : List Nat → Text
  | [] => []
  | [a] => [digit (a / 4), digit (a % 4 * 16)]
  | [a, b] => [digit (a / 4), digit (a % 4 * 16 + b / 16), digit (b % 16 * 4)]
  | a :: b :: c :: m =>
    digit (a / 4) :: digit (a % 4 * 16 + b / 16) :: digit (b % 16 * 4 + c / 64) :: digit (c % 64) ::
      encode m

/-- The bytes of groups of six bits. -/
def bytes : List Nat → Option (List Nat)
  | [] => some []
  | [_] => none
  | [x, y] => some [x * 4 + y / 16]
  | [x, y, z] => some [x * 4 + y / 16, y % 16 * 16 + z / 4]
  | x :: y :: z :: w :: m =>
    (bytes m).map fun rest => (x * 4 + y / 16) :: (y % 16 * 16 + z / 4) :: (z % 4 * 64 + w) :: rest

def decode (s : Text) : Option (List Nat) := (s.mapM value).bind bytes

example : encode [77, 97, 110, 255] = "TWFu_w".toList := by decide
example : decode "TWFu_w".toList = some [77, 97, 110, 255] := by decide

/-! ## What they give -/

/-- The groups of six bits that the bytes are written in. -/
def sextets : List Nat → List Nat
  | [] => []
  | [a] => [a / 4, a % 4 * 16]
  | [a, b] => [a / 4, a % 4 * 16 + b / 16, b % 16 * 4]
  | a :: b :: c :: m =>
    (a / 4) :: (a % 4 * 16 + b / 16) :: (b % 16 * 4 + c / 64) :: (c % 64) :: sextets m

theorem encode_eq (m : List Nat) : encode m = (sextets m).map digit := by
  fun_induction sextets m with
  | case1 => rfl
  | case2 a => rfl
  | case3 a b => rfl
  | case4 a b c m ih => simp only [encode, ih, List.map_cons]

theorem sextets_lt {m : List Nat} (h : ∀ a ∈ m, a < 256) : ∀ x ∈ sextets m, x < 64 := by
  fun_induction sextets m with
  | case1 => exact fun x hx => by cases hx
  | case2 a =>
    have ha := h a (by simp)
    simp only [List.mem_cons, List.not_mem_nil, or_false]
    rintro x (rfl | rfl) <;> omega
  | case3 a b =>
    have ha := h a (by simp)
    have hb := h b (by simp)
    simp only [List.mem_cons, List.not_mem_nil, or_false]
    rintro x (rfl | rfl | rfl) <;> omega
  | case4 a b c m ih =>
    have ha := h a (by simp)
    have hb := h b (by simp)
    have hc := h c (by simp)
    simp only [List.mem_cons]
    rintro x (rfl | rfl | rfl | rfl | hx)
    · omega
    · omega
    · omega
    · omega
    · exact ih (fun d hd => h d (by simp [hd])) x hx

theorem bytes_sextets {m : List Nat} (h : ∀ a ∈ m, a < 256) : bytes (sextets m) = some m := by
  fun_induction sextets m with
  | case1 => rfl
  | case2 a =>
    have ha := h a (by simp)
    simp only [bytes, Option.some.injEq, List.cons.injEq, and_true]
    omega
  | case3 a b =>
    have ha := h a (by simp)
    have hb := h b (by simp)
    simp only [bytes, Option.some.injEq, List.cons.injEq, and_true]
    omega
  | case4 a b c m ih =>
    have ha := h a (by simp)
    have hb := h b (by simp)
    have hc := h c (by simp)
    simp only [bytes, ih fun d hd => h d (by simp [hd]), Option.map_some, Option.some.injEq,
      List.cons.injEq, and_true]
    omega

theorem mapM_value {xs : List Nat} (h : ∀ x ∈ xs, x < 64) :
    (xs.map digit).mapM value = some xs := by
  induction xs with
  | nil => rfl
  | cons x xs ih =>
    rw [List.map_cons, List.mapM_cons, value_digit (h x List.mem_cons_self),
      ih fun y hy => h y (List.mem_cons_of_mem _ hy)]
    rfl

/-- **Decoding inverts encoding.** -/
theorem decode_encode {m : List Nat} (h : ∀ a ∈ m, a < 256) : decode (encode m) = some m := by
  unfold decode
  rw [encode_eq, mapM_value (sextets_lt h), Option.bind_some, bytes_sextets h]

theorem length_encode (m : List Nat) : (encode m).length = (4 * m.length + 2) / 3 := by
  fun_induction encode m with
  | case1 => rfl
  | case2 a => simp
  | case3 a b => simp
  | case4 a b c m ih =>
    simp only [List.length_cons, ih]
    omega

theorem mem_encode {m : List Nat} {c : Char} (h : c ∈ encode m) : c ∈ alphabet := by
  rw [encode_eq] at h
  obtain ⟨n, -, rfl⟩ := List.mem_map.mp h
  exact digit_mem n

end Base64
