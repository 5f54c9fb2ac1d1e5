import Mathlib.Algebra.GroupWithZero.Nat
import Mathlib.Data.Fin.Basic
import Mathlib.Data.List.Basic
import Mathlib.Tactic.Common

/-!
# Text as bytes

Decoding of UTF-8, and decimal numbers as they are printed and parsed: parsing reads the digits from
the left and fails as soon as the number leaves its range.
-/

namespace Opbox

/-! ## UTF-8 -/

/-- The number of bytes, for the literals of `Fin 256`. -/
instance neZero_byte : NeZero 256 := ⟨Nat.succ_ne_zero 255⟩

/-- The bytes of ASCII text. -/
def asciiBytes (text : List Char) : List (Fin 256) := text.map fun c => Fin.ofNat 256 c.toNat

/-- The text is ASCII. -/
def IsAscii (text : List Char) : Prop := ∀ c ∈ text, c.toNat < 128

instance (text : List Char) : Decidable (IsAscii text) :=
  List.decidableBAll (fun c : Char => c.toNat < 128) text

/-- The payload of a continuation byte. -/
def continuationBits (b : Fin 256) : Option Nat :=
  if 128 ≤ b.val ∧ b.val < 192 then some (b.val - 128) else none

/-- The character of a sequence that may not encode numbers below `least`. -/
def scalar (least n : Nat) : Option Char :=
  if least ≤ n ∧ n.isValidChar then some (Char.ofNat n) else none

/-- Decode UTF-8: overlong sequences, surrogates and numbers above the last character fail. -/
def decodeUtf8 : List (Fin 256) → Option (List Char)
  | [] => some []
  | a :: rest =>
    if a.val < 128 then (decodeUtf8 rest).map (Char.ofNat a.val :: ·)
    else match rest with
      | [] => none
      | b :: rest =>
        if 192 ≤ a.val ∧ a.val < 224 then do
          let x ← continuationBits b
          let c ← scalar 0x80 ((a.val - 192) * 64 + x)
          (decodeUtf8 rest).map (c :: ·)
        else match rest with
          | [] => none
          | c :: rest =>
            if 224 ≤ a.val ∧ a.val < 240 then do
              let x ← continuationBits b
              let y ← continuationBits c
              let c ← scalar 0x800 (((a.val - 224) * 64 + x) * 64 + y)
              (decodeUtf8 rest).map (c :: ·)
            else match rest with
              | [] => none
              | d :: rest =>
                if 240 ≤ a.val ∧ a.val < 248 then do
                  let x ← continuationBits b
                  let y ← continuationBits c
                  let z ← continuationBits d
                  let c ← scalar 0x10000 ((((a.val - 240) * 64 + x) * 64 + y) * 64 + z)
                  (decodeUtf8 rest).map (c :: ·)
                else none

@[simp] theorem length_asciiBytes (text : List Char) : (asciiBytes text).length = text.length :=
  List.length_map _

theorem asciiBytes_cons (c : Char) (text : List Char) :
    asciiBytes (c :: text) = Fin.ofNat 256 c.toNat :: asciiBytes text := rfl

theorem decodeUtf8_cons_of_lt {a : Fin 256} {rest : List (Fin 256)} (h : a.val < 128) :
    decodeUtf8 (a :: rest) = (decodeUtf8 rest).map (Char.ofNat a.val :: ·) := by
  rw [decodeUtf8.eq_def]
  simp only [if_pos h]

/-- ASCII text is its own encoding. -/
theorem decodeUtf8_asciiBytes {text : List Char} (h : IsAscii text) :
    decodeUtf8 (asciiBytes text) = some text := by
  induction text with
  | nil => rfl
  | cons c text ih =>
    have hc : c.toNat < 128 := h c List.mem_cons_self
    have hval : (Fin.ofNat 256 c.toNat).val = c.toNat := Nat.mod_eq_of_lt (by omega)
    rw [asciiBytes_cons, decodeUtf8_cons_of_lt (hval.trans_lt hc), hval,
      ih fun x hx => h x (List.mem_cons_of_mem _ hx), Char.ofNat_toNat]
    rfl

/-- After one character the rest is decoded. -/
def thenDecode (head : Option Char) (rest : List (Fin 256)) : Option (List Char) :=
  head.bind fun c => (decodeUtf8 rest).map (c :: ·)

theorem decodeUtf8_two {a b : Fin 256} {rest : List (Fin 256)} (ha : 192 ≤ a.val ∧ a.val < 224) :
    decodeUtf8 (a :: b :: rest) = thenDecode
      ((continuationBits b).bind fun x => scalar 0x80 ((a.val - 192) * 64 + x)) rest := by
  rw [decodeUtf8.eq_def]
  have hlt : ¬a.val < 128 := by omega
  simp only [if_neg hlt, if_pos ha, thenDecode, Option.bind_assoc]
  rfl

theorem decodeUtf8_three {a b c : Fin 256} {rest : List (Fin 256)}
    (ha : 224 ≤ a.val ∧ a.val < 240) :
    decodeUtf8 (a :: b :: c :: rest) = thenDecode
      ((continuationBits b).bind fun x => (continuationBits c).bind fun y =>
        scalar 0x800 (((a.val - 224) * 64 + x) * 64 + y)) rest := by
  rw [decodeUtf8.eq_def]
  have hlt : ¬a.val < 128 := by omega
  have htwo : ¬(192 ≤ a.val ∧ a.val < 224) := by omega
  simp only [if_neg hlt, if_neg htwo, if_pos ha, thenDecode, Option.bind_assoc]
  rfl

theorem decodeUtf8_four {a b c d : Fin 256} {rest : List (Fin 256)}
    (ha : 240 ≤ a.val ∧ a.val < 248) :
    decodeUtf8 (a :: b :: c :: d :: rest) = thenDecode
      ((continuationBits b).bind fun x => (continuationBits c).bind fun y =>
        (continuationBits d).bind fun z =>
          scalar 0x10000 ((((a.val - 240) * 64 + x) * 64 + y) * 64 + z)) rest := by
  rw [decodeUtf8.eq_def]
  have hlt : ¬a.val < 128 := by omega
  have htwo : ¬(192 ≤ a.val ∧ a.val < 224) := by omega
  have hthree : ¬(224 ≤ a.val ∧ a.val < 240) := by omega
  simp only [if_neg hlt, if_neg htwo, if_neg hthree, if_pos ha, thenDecode, Option.bind_assoc]
  rfl

theorem thenDecode_append (head : Option Char) {rest more : List (Fin 256)} {text : List Char}
    (ih : ∀ {text}, decodeUtf8 rest = some text →
      decodeUtf8 (rest ++ more) = (decodeUtf8 more).map (text ++ ·))
    (h : thenDecode head rest = some text) :
    thenDecode head (rest ++ more) = (decodeUtf8 more).map (text ++ ·) := by
  obtain ⟨c, hc, hrest⟩ := Option.bind_eq_some_iff.mp h
  obtain ⟨tail, htail, rfl⟩ := Option.map_eq_some_iff.mp hrest
  rw [thenDecode, hc, Option.bind_some, ih htail, Option.map_map]
  rfl

/-- Two encoded texts side by side are an encoded text. -/
theorem decodeUtf8_append {bytes : List (Fin 256)} {text : List Char}
    (h : decodeUtf8 bytes = some text) (more : List (Fin 256)) :
    decodeUtf8 (bytes ++ more) = (decodeUtf8 more).map (text ++ ·) := by
  induction bytes using decodeUtf8.induct generalizing text with
  | case1 =>
    cases h
    simp
  | case2 a rest hlt ih =>
    rw [decodeUtf8_cons_of_lt hlt] at h
    rw [List.cons_append, decodeUtf8_cons_of_lt hlt]
    exact thenDecode_append (some _) ih h
  | case4 a _ b rest ha ih =>
    rw [decodeUtf8_two ha] at h
    rw [List.cons_append, List.cons_append, decodeUtf8_two ha]
    exact thenDecode_append _ ih h
  | case6 a _ b _ c rest ha ih =>
    rw [decodeUtf8_three ha] at h
    rw [List.cons_append, List.cons_append, List.cons_append, decodeUtf8_three ha]
    exact thenDecode_append _ ih h
  | case8 a _ b _ c _ d rest ha ih =>
    rw [decodeUtf8_four ha] at h
    rw [List.cons_append, List.cons_append, List.cons_append, List.cons_append, decodeUtf8_four ha]
    exact thenDecode_append _ ih h
  | case3 a hlt | case5 a hlt b hb | case7 a hlt b hb c hc | case9 a hlt b hb c hc d rest hd =>
    rw [decodeUtf8.eq_def] at h
    simp [*] at h

/-! ## Decimal numbers -/

/-- Read digits from the left; `value` is what the digits before say, and no value may exceed
`bound`. -/
def parseDigits (bound : Nat) : Nat → List Char → Option Nat
  | value, [] => some value
  | value, c :: cs =>
    if c.isDigit then
      let next := 10 * value + (c.toNat - '0'.toNat)
      if next ≤ bound then parseDigits bound next cs else none
    else none

/-- Parse an unsigned number up to `bound`. -/
def parseUnsigned (bound : Nat) : List Char → Option Nat
  | [] => none
  | '+' :: digits => if digits = [] then none else parseDigits bound 0 digits
  | c :: digits => parseDigits bound 0 (c :: digits)

/-- Parse a signed number from `-(bound + 1)` to `bound`. -/
def parseSigned (bound : Nat) : List Char → Option Int
  | [] => none
  | '-' :: digits =>
    if digits = [] then none else (parseDigits (bound + 1) 0 digits).map fun n => -(n : Int)
  | c :: digits => (parseUnsigned bound (c :: digits)).map Int.ofNat

/-- A number in decimal. -/
def showNat (n : Nat) : List Char := Nat.toDigits 10 n

/-- A signed number in decimal. -/
def showInt : Int → List Char
  | .ofNat n => showNat n
  | .negSucc n => '-' :: showNat (n + 1)

theorem le_ofDigitChars (cs : List Char) (value : Nat) : value ≤ Nat.ofDigitChars 10 cs value := by
  induction cs generalizing value with
  | nil => rw [Nat.ofDigitChars_nil]
  | cons c cs ih =>
    rw [Nat.ofDigitChars_cons]
    exact le_trans (by omega) (ih _)

/-- Digits whose number is in range are read. -/
theorem parseDigits_eq {bound : Nat} {cs : List Char} {value : Nat}
    (hdigits : ∀ c ∈ cs, c.isDigit = true) (hle : Nat.ofDigitChars 10 cs value ≤ bound) :
    parseDigits bound value cs = some (Nat.ofDigitChars 10 cs value) := by
  induction cs generalizing value with
  | nil => rw [parseDigits, Nat.ofDigitChars_nil]
  | cons c cs ih =>
    rw [Nat.ofDigitChars_cons] at hle ⊢
    have hnext : 10 * value + (c.toNat - '0'.toNat) ≤ bound := (le_ofDigitChars cs _).trans hle
    rw [parseDigits, if_pos (hdigits c List.mem_cons_self)]
    simp only [if_pos hnext]
    exact ih (fun x hx => hdigits x (List.mem_cons_of_mem _ hx)) hle

theorem isDigit_of_mem_showNat {n : Nat} {c : Char} (h : c ∈ showNat n) : c.isDigit = true :=
  Nat.isDigit_of_mem_toDigits (by decide) (by decide) h

theorem showNat_ne_nil (n : Nat) : showNat n ≠ [] := Nat.toDigits_ne_nil

theorem parseDigits_showNat {bound n : Nat} (h : n ≤ bound) :
    parseDigits bound 0 (showNat n) = some n := by
  have hvalue : Nat.ofDigitChars 10 (showNat n) 0 = n := Nat.ofDigitChars_ten_toDigits
  rw [parseDigits_eq (fun c => isDigit_of_mem_showNat) (hvalue.le.trans h), hvalue]

/-- A printed number is parsed back. -/
theorem parseUnsigned_showNat {bound n : Nat} (h : n ≤ bound) :
    parseUnsigned bound (showNat n) = some n := by
  have hparse := parseDigits_showNat h
  cases hshow : showNat n with
  | nil => exact absurd hshow (showNat_ne_nil n)
  | cons c digits =>
    have hdigit : c.isDigit = true := isDigit_of_mem_showNat (hshow ▸ List.mem_cons_self)
    rw [hshow] at hparse
    unfold parseUnsigned
    split
    · cases ‹_ = []›
    · next heq =>
      cases heq
      exact absurd hdigit (by decide)
    · next heq =>
      rw [← heq]
      exact hparse

/-- A printed signed number is parsed back. -/
theorem parseSigned_showInt {bound : Nat} {i : Int} (hlow : -(bound + 1 : Int) ≤ i)
    (hhigh : i ≤ bound) : parseSigned bound (showInt i) = some i := by
  cases i with
  | ofNat n =>
    have hle : n ≤ bound := by simpa using hhigh
    have hparse := parseUnsigned_showNat hle
    show parseSigned bound (showNat n) = _
    cases hshow : showNat n with
    | nil => exact absurd hshow (showNat_ne_nil n)
    | cons c digits =>
      have hdigit : c.isDigit = true := isDigit_of_mem_showNat (hshow ▸ List.mem_cons_self)
      rw [hshow] at hparse
      unfold parseSigned
      split
      · cases ‹_ = []›
      · next heq =>
        cases heq
        exact absurd hdigit (by decide)
      · next heq =>
        rw [← heq, hparse]
        rfl
  | negSucc n =>
    have hle : n + 1 ≤ bound + 1 := by omega
    show parseSigned bound ('-' :: showNat (n + 1)) = _
    rw [parseSigned, if_neg (showNat_ne_nil _), parseDigits_showNat hle]
    rfl

theorem isAscii_showNat (n : Nat) : IsAscii (showNat n) := by
  intro c hc
  have hdigit := isDigit_of_mem_showNat hc
  rw [Char.isDigit, Bool.and_eq_true, decide_eq_true_eq, decide_eq_true_eq] at hdigit
  have hle : c.toNat ≤ 57 := hdigit.2
  omega

theorem isAscii_showInt (i : Int) : IsAscii (showInt i) := by
  cases i with
  | ofNat n => exact isAscii_showNat n
  | negSucc n => exact List.forall_mem_cons.mpr ⟨by decide, isAscii_showNat (n + 1)⟩

theorem length_showNat_le {n k : Nat} (hk : 0 < k) (h : n < 10 ^ k) : (showNat n).length ≤ k :=
  (Nat.length_toDigits_le_iff (by decide) hk).mpr h

theorem length_showInt_le {i : Int} {k : Nat} (hk : 0 < k) (h : i.natAbs < 10 ^ k) :
    (showInt i).length ≤ k + 1 := by
  cases i with
  | ofNat n => exact (length_showNat_le hk h).trans (Nat.le_succ k)
  | negSucc n => exact Nat.succ_le_succ (length_showNat_le hk h)

end Opbox
