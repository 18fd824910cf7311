import Gamebook.Text.Utf8
import Gamebook.Proofs.Fallible
import Mathlib.Data.List.Basic

/-!
# Bytes that are UTF-8

Exactly the bytes of characters are decoded, and to those characters (`decode_eq_ok_iff`): no
character has two encodings, and no surrogate and nothing behind the last character is let through.

A character is decoded byte by byte; the bytes that follow the first only have to be in the range that
the decoder keeps for them, and the first decides on the range of the second.
-/

namespace Gamebook.Text.Utf8

/-! ## Encoding -/

/-- The bytes of the character with a code. -/
def bytesOf (n : Nat) : List Nat :=
  if n ≤ 0x7F then [n]
  else if n ≤ 0x7FF then [n / 64 + 0xC0, n % 64 + 0x80]
  else if n ≤ 0xFFFF then [n / 4096 + 0xE0, n / 64 % 64 + 0x80, n % 64 + 0x80]
  else [n / 262144 + 0xF0, n / 4096 % 64 + 0x80, n / 64 % 64 + 0x80, n % 64 + 0x80]

/-! The codes that bytes in their ranges stand for are encoded as these bytes. -/

theorem bytesOf_two {b b₁ : Nat} (h : 0xC2 ≤ b ∧ b ≤ 0xDF) (h₁ : 0x80 ≤ b₁ ∧ b₁ ≤ 0xBF) :
    bytesOf ((b - 0xC0) * 64 + (b₁ - 0x80)) = [b, b₁] := by
  generalize hn : (b - 0xC0) * 64 + (b₁ - 0x80) = n
  have hfirst : n / 64 + 0xC0 = b := by omega
  have hsecond : n % 64 + 0x80 = b₁ := by omega
  rw [bytesOf, if_neg (by omega), if_pos (by omega), hfirst, hsecond]

theorem bytesOf_three {b b₁ b₂ : Nat} (h : 0xE0 ≤ b ∧ b ≤ 0xEF) (h₁ : 0x80 ≤ b₁ ∧ b₁ ≤ 0xBF)
    (h₂ : 0x80 ≤ b₂ ∧ b₂ ≤ 0xBF) (hsmall : b = 0xE0 → 0xA0 ≤ b₁) :
    bytesOf (((b - 0xE0) * 64 + (b₁ - 0x80)) * 64 + (b₂ - 0x80)) = [b, b₁, b₂] := by
  generalize hn : ((b - 0xE0) * 64 + (b₁ - 0x80)) * 64 + (b₂ - 0x80) = n
  have hfirst : n / 4096 + 0xE0 = b := by omega
  have hsecond : n / 64 % 64 + 0x80 = b₁ := by omega
  have hthird : n % 64 + 0x80 = b₂ := by omega
  rw [bytesOf, if_neg (by omega), if_neg (by omega), if_pos (by omega), hfirst, hsecond, hthird]

theorem bytesOf_four {b b₁ b₂ b₃ : Nat} (h : 0xF0 ≤ b ∧ b ≤ 0xF4) (h₁ : 0x80 ≤ b₁ ∧ b₁ ≤ 0xBF)
    (h₂ : 0x80 ≤ b₂ ∧ b₂ ≤ 0xBF) (h₃ : 0x80 ≤ b₃ ∧ b₃ ≤ 0xBF) (hsmall : b = 0xF0 → 0x90 ≤ b₁) :
    bytesOf ((((b - 0xF0) * 64 + (b₁ - 0x80)) * 64 + (b₂ - 0x80)) * 64 + (b₃ - 0x80)) =
      [b, b₁, b₂, b₃] := by
  generalize hn : (((b - 0xF0) * 64 + (b₁ - 0x80)) * 64 + (b₂ - 0x80)) * 64 + (b₃ - 0x80) = n
  have hfirst : n / 262144 + 0xF0 = b := by omega
  have hsecond : n / 4096 % 64 + 0x80 = b₁ := by omega
  have hthird : n / 64 % 64 + 0x80 = b₂ := by omega
  have hfourth : n % 64 + 0x80 = b₃ := by omega
  rw [bytesOf, if_neg (by omega), if_neg (by omega), if_neg (by omega), hfirst, hsecond, hthird,
    hfourth]

theorem length_bytesOf_pos (n : Nat) : 0 < (bytesOf n).length := by
  unfold bytesOf
  split_ifs <;> exact Nat.succ_pos _

/-- The bytes of characters. -/
def encoded (cs : List Char) : List Nat :=
  (cs.flatMap String.utf8EncodeChar).map UInt8.toNat

theorem toNat_utf8EncodeChar (c : Char) :
    (String.utf8EncodeChar c).map UInt8.toNat = bytesOf c.toNat := by
  have hvalid : c.toNat < 0x110000 := by
    rcases c.valid with h | h
    · exact Nat.lt_trans h (by decide)
    · exact h.2
  have hval : c.val.toNat = c.toNat := rfl
  unfold String.utf8EncodeChar bytesOf
  simp only [hval]
  split_ifs <;>
    simp only [List.map_cons, List.map_nil, UInt8.toNat_ofNat', List.cons.injEq, and_true] <;> omega

theorem encoded_cons (c : Char) (cs : List Char) :
    encoded (c :: cs) = bytesOf c.toNat ++ encoded cs := by
  unfold encoded
  rw [List.flatMap_cons, List.map_append, toNat_utf8EncodeChar]

variable {position : Nat} {p : Pending} {b : Nat} {bs : List Nat} {cs : List Char}

/-! ## One byte -/

theorem decodeFrom_ascii (h : b < 0x80) :
    decodeFrom position none (b :: bs) =
      (decodeFrom (position + 1) none bs).map (Char.ofNat b :: ·) := by
  rw [decodeFrom, if_pos h]

theorem decodeFrom_start (h : 0x80 ≤ b) (hp : Pending.start? position b = some p) :
    decodeFrom position none (b :: bs) = decodeFrom (position + 1) (some p) bs := by
  rw [decodeFrom, if_neg (Nat.not_lt.2 h), hp]

theorem decodeFrom_more (hlow : p.low ≤ b) (hhigh : b ≤ p.high) (hdue : 1 < p.due) :
    decodeFrom position (some p) (b :: bs) =
      decodeFrom (position + 1)
        (some ⟨p.position, p.lead, p.count + 1, p.due - 1, 0x80, 0xBF,
          p.bits * 64 + (b - 0x80)⟩) bs := by
  rw [decodeFrom, if_pos ⟨hlow, hhigh⟩]
  exact if_neg (Nat.not_le.2 hdue)

theorem decodeFrom_last (hlow : p.low ≤ b) (hhigh : b ≤ p.high) (hdue : p.due ≤ 1) :
    decodeFrom position (some p) (b :: bs) =
      (decodeFrom (position + 1) none bs).map (Char.ofNat (p.bits * 64 + (b - 0x80)) :: ·) := by
  rw [decodeFrom, if_pos ⟨hlow, hhigh⟩]
  exact if_pos hdue

/-- While a character is pending, decoding succeeds only behind a byte in its range. -/
theorem exists_of_decodeFrom_some {bytes : List Nat}
    (h : decodeFrom position (some p) bytes = .ok cs) :
    ∃ b bs, bytes = b :: bs ∧ p.low ≤ b ∧ b ≤ p.high := by
  cases bytes with
  | nil => cases h
  | cons b bs =>
    rw [decodeFrom] at h
    split at h
    · next hrange => exact ⟨b, bs, rfl, hrange.1, hrange.2⟩
    · cases h

/-! ### First bytes -/

theorem start?_two {lead : Nat} (hlow : 0xC2 ≤ lead) (hhigh : lead ≤ 0xDF) :
    Pending.start? position lead = some ⟨position, lead, 1, 1, 0x80, 0xBF, lead - 0xC0⟩ :=
  if_pos ⟨hlow, hhigh⟩

theorem start?_three {lead : Nat} (hlow : 0xE0 ≤ lead) (hhigh : lead ≤ 0xEF) :
    Pending.start? position lead =
      some ⟨position, lead, 1, 2, if lead = 0xE0 then 0xA0 else 0x80,
        if lead = 0xED then 0x9F else 0xBF, lead - 0xE0⟩ := by
  unfold Pending.start?
  rw [if_neg (by omega), if_pos ⟨hlow, hhigh⟩]

theorem start?_four {lead : Nat} (hlow : 0xF0 ≤ lead) (hhigh : lead ≤ 0xF4) :
    Pending.start? position lead =
      some ⟨position, lead, 1, 3, if lead = 0xF0 then 0x90 else 0x80,
        if lead = 0xF4 then 0x8F else 0xBF, lead - 0xF0⟩ := by
  unfold Pending.start?
  rw [if_neg (by omega), if_neg (by omega), if_pos ⟨hlow, hhigh⟩]

/-! ## One character -/

/-- The bytes of a character are decoded to it, whatever follows. -/
theorem decodeFrom_bytesOf (position : Nat) (c : Char) (bs : List Nat) :
    ∃ next, decodeFrom position none (bytesOf c.toNat ++ bs) =
      (decodeFrom next none bs).map (c :: ·) := by
  have hvalid : c.toNat < 0xD800 ∨ 0xDFFF < c.toNat ∧ c.toNat < 0x110000 := c.valid
  have hchar : Char.ofNat c.toNat = c := Char.ofNat_toNat c
  generalize c.toNat = n at hvalid hchar
  unfold bytesOf
  split_ifs
  · refine ⟨position + 1, ?_⟩
    rw [List.singleton_append, decodeFrom_ascii (by omega), hchar]
  · refine ⟨position + 2, ?_⟩
    have hbits : (n / 64 + 0xC0 - 0xC0) * 64 + (n % 64 + 0x80 - 0x80) = n := by omega
    rw [List.cons_append, List.singleton_append,
      decodeFrom_start (by omega) (start?_two (by omega) (by omega)),
      decodeFrom_last (by simp only; omega) (by simp only; omega) (Nat.le_refl 1)]
    simp only [hbits, hchar]
  · refine ⟨position + 3, ?_⟩
    have hbits : ((n / 4096 + 0xE0 - 0xE0) * 64 + (n / 64 % 64 + 0x80 - 0x80)) * 64 +
        (n % 64 + 0x80 - 0x80) = n := by omega
    rw [List.cons_append, List.cons_append, List.singleton_append,
      decodeFrom_start (by omega) (start?_three (by omega) (by omega)),
      decodeFrom_more (by simp only; split <;> omega) (by simp only; split <;> omega)
        (by simp only; omega),
      decodeFrom_last (by simp only; omega) (by simp only; omega) (Nat.le_refl 1)]
    simp only [hbits, hchar]
  · refine ⟨position + 4, ?_⟩
    have hbits : (((n / 262144 + 0xF0 - 0xF0) * 64 + (n / 4096 % 64 + 0x80 - 0x80)) * 64 +
        (n / 64 % 64 + 0x80 - 0x80)) * 64 + (n % 64 + 0x80 - 0x80) = n := by omega
    rw [List.cons_append, List.cons_append, List.cons_append, List.singleton_append,
      decodeFrom_start (by omega) (start?_four (by omega) (by omega)),
      decodeFrom_more (by simp only; split <;> omega) (by simp only; split <;> omega)
        (by simp only; omega),
      decodeFrom_more (by simp only; omega) (by simp only; omega) (by simp only; omega),
      decodeFrom_last (by simp only; omega) (by simp only; omega) (Nat.le_refl 1)]
    simp only [hbits, hchar]

theorem toNat_ofNat {n : Nat} (h : n < 0xD800 ∨ 0xDFFF < n ∧ n < 0x110000) :
    (Char.ofNat n).toNat = n := by
  have hvalid : n.isValidChar := h
  rw [Char.ofNat, dif_pos hvalid]
  rfl

theorem exists_char_of_bytes {n : Nat} {bytes rest : List Nat}
    (h : n < 0xD800 ∨ 0xDFFF < n ∧ n < 0x110000) (hbytes : bytes = bytesOf n ++ rest) :
    ∃ (c : Char) (rest : List Nat), bytes = bytesOf c.toNat ++ rest :=
  ⟨Char.ofNat n, rest, by rw [toNat_ofNat h, hbytes]⟩

/-- What is decoded begins with a character, and the bytes with its bytes. -/
theorem exists_of_decodeFrom_none (h : decodeFrom position none (b :: bs) = .ok cs) :
    ∃ (c : Char) (rest : List Nat), b :: bs = bytesOf c.toNat ++ rest := by
  by_cases hascii : b < 0x80
  · have hbytes : bytesOf b = [b] := by rw [bytesOf, if_pos (by omega)]
    exact exists_char_of_bytes (by omega) (congrArg (· ++ bs) hbytes).symm
  by_cases htwo : 0xC2 ≤ b ∧ b ≤ 0xDF
  · rw [decodeFrom_start (by omega) (start?_two htwo.1 htwo.2)] at h
    obtain ⟨b₁, bs, rfl, h₁⟩ := exists_of_decodeFrom_some h
    simp only at h₁
    exact exists_char_of_bytes (by omega) (congrArg (· ++ bs) (bytesOf_two htwo h₁)).symm
  by_cases hthree : 0xE0 ≤ b ∧ b ≤ 0xEF
  · rw [decodeFrom_start (by omega) (start?_three hthree.1 hthree.2)] at h
    obtain ⟨b₁, bs, rfl, hlow, hhigh⟩ := exists_of_decodeFrom_some h
    rw [decodeFrom_more hlow hhigh (by simp only; omega)] at h
    obtain ⟨b₂, bs, rfl, h₂⟩ := exists_of_decodeFrom_some h
    simp only at hlow hhigh h₂
    -- the second byte is bounded where the code would be too small or a surrogate's
    have hsmall : b = 0xE0 → 0xA0 ≤ b₁ := fun he => by rwa [if_pos he] at hlow
    have hsurrogate : b = 0xED → b₁ ≤ 0x9F := fun he => by rwa [if_pos he] at hhigh
    have h₁ : 0x80 ≤ b₁ ∧ b₁ ≤ 0xBF := by
      constructor
      · split at hlow <;> omega
      · split at hhigh <;> omega
    exact exists_char_of_bytes (by omega)
      (congrArg (· ++ bs) (bytesOf_three hthree h₁ h₂ hsmall)).symm
  by_cases hfour : 0xF0 ≤ b ∧ b ≤ 0xF4
  · rw [decodeFrom_start (by omega) (start?_four hfour.1 hfour.2)] at h
    obtain ⟨b₁, bs, rfl, hlow, hhigh⟩ := exists_of_decodeFrom_some h
    rw [decodeFrom_more hlow hhigh (by simp only; omega)] at h
    obtain ⟨b₂, bs, rfl, h₂⟩ := exists_of_decodeFrom_some h
    rw [decodeFrom_more h₂.1 h₂.2 (by simp only; omega)] at h
    obtain ⟨b₃, bs, rfl, h₃⟩ := exists_of_decodeFrom_some h
    simp only at hlow hhigh h₂ h₃
    have hsmall : b = 0xF0 → 0x90 ≤ b₁ := fun he => by rwa [if_pos he] at hlow
    have hlarge : b = 0xF4 → b₁ ≤ 0x8F := fun he => by rwa [if_pos he] at hhigh
    have h₁ : 0x80 ≤ b₁ ∧ b₁ ≤ 0xBF := by
      constructor
      · split at hlow <;> omega
      · split at hhigh <;> omega
    exact exists_char_of_bytes (by omega)
      (congrArg (· ++ bs) (bytesOf_four hfour h₁ h₂ h₃ hsmall)).symm
  · rw [decodeFrom, if_neg hascii] at h
    unfold Pending.start? at h
    rw [if_neg htwo, if_neg hthree, if_neg hfour] at h
    cases h

/-! ## Bytes and characters -/

/-- What is decoded was encoded.  The induction is on the bytes, of which those of
the first character are taken off at once. -/
theorem eq_encoded_of_decodeFrom {bytes : List Nat} (h : decodeFrom position none bytes = .ok cs) :
    bytes = encoded cs := by
  induction hn : bytes.length using Nat.strongRecOn generalizing bytes cs position with
  | _ n ih =>
    subst hn
    cases bytes with
    | nil =>
      cases h
      rfl
    | cons b bs =>
      obtain ⟨c, rest, hbytes⟩ := exists_of_decodeFrom_none h
      obtain ⟨next, hnext⟩ := decodeFrom_bytesOf position c rest
      rw [hbytes, hnext] at h
      obtain ⟨cs, hrest, rfl⟩ := map_eq_ok_iff.1 h
      have hshorter : rest.length < (b :: bs).length := by
        have hpos := length_bytesOf_pos c.toNat
        rw [hbytes, List.length_append]
        omega
      rw [hbytes, encoded_cons, ih _ hshorter hrest rfl]

theorem decodeFrom_encoded (cs : List Char) (position : Nat) :
    decodeFrom position none (encoded cs) = .ok cs := by
  induction cs generalizing position with
  | nil => rfl
  | cons c cs ih =>
    obtain ⟨next, hnext⟩ := decodeFrom_bytesOf position c (encoded cs)
    rw [encoded_cons, hnext, ih, map_ok]

/-- Exactly the bytes of characters are decoded, and to those characters. -/
theorem decode_eq_ok_iff {bytes : List Nat} : decode bytes = .ok cs ↔ bytes = encoded cs := by
  constructor
  · exact eq_encoded_of_decodeFrom
  · rintro rfl
    exact decodeFrom_encoded cs 0

end Gamebook.Text.Utf8
