import SignHash.Json.Reader
import SignHash.Json.Writer
import SignHash.Proofs.Double
import SignHash.Proofs.Nearest

/-!
# Numbers written and read

A number that a document writes is made of a sign, digits before and after a point, and an exponent.
Texts of this form are read back part by part, up to a character that cannot go on with a number; and
what is read has the value of the digits, so a finite number comes back with every bit.
-/

namespace SignHash.Json

open Decimal

/-! ## Digits -/

/-- Decimal digits, at least one. -/
structure IsDigits (ds : List Char) : Prop where
  ne_nil : ds ≠ []
  all : ∀ c ∈ ds, c.isDigit = true

/-- No digit stands at the front. -/
def EndsDigits (rest : List Char) : Prop := ∀ c ∈ rest.head?, c.isDigit = false

/-- Padding with zeros, or leaving out some digits but not all, leaves digits. -/
theorem IsDigits.of_mem {ds ds' : List Char} (h : IsDigits ds) (hne : ds' ≠ [])
    (hmem : ∀ c ∈ ds', c ∈ ds ∨ c = '0') : IsDigits ds' := by
  refine ⟨hne, fun c hc => ?_⟩
  rcases hmem c hc with hds | rfl
  · exact h.all c hds
  · decide

theorem isDigits_natDigits (n : Nat) : IsDigits (natDigits n) :=
  ⟨Nat.toDigits_ne_nil, fun _ hc => Nat.isDigit_of_mem_toDigits (by decide) (by decide) hc⟩

/-- No number but zero starts with a zero. -/
theorem head?_natDigits {n : Nat} (h : (natDigits n).head? = some '0') : n = 0 := by
  induction n using Nat.strongRecOn with
  | ind n ih =>
    rw [natDigits] at h
    by_cases hsmall : n < 10
    · rw [Nat.toDigits_of_lt_base hsmall] at h
      interval_cases n <;> simp_all [Nat.digitChar]
    · have hlarge : 10 ≤ n := by omega
      rw [Nat.toDigits_of_base_le (by decide) hlarge, List.head?_append_of_ne_nil _ Nat.toDigits_ne_nil]
        at h
      have hzero := ih (n / 10) (by omega) h
      omega

theorem digitsValue_eq (ds : List Char) : digitsValue ds = Nat.ofDigitChars 10 ds 0 := rfl

@[simp] theorem digitsValue_natDigits (n : Nat) : digitsValue (natDigits n) = n := by
  rw [digitsValue_eq, natDigits, Nat.ofDigitChars_ten_toDigits]

/-- Zeros at the end multiply by powers of ten. -/
theorem digitsValue_append_zeros (ds : List Char) (n : Nat) :
    digitsValue (ds ++ List.replicate n '0') = digitsValue ds * 10 ^ n := by
  rw [digitsValue_eq, Nat.ofDigitChars_append, Nat.ofDigitChars_replicate_zero, digitsValue_eq,
    Nat.mul_comm]

/-- Zeros in front do not count. -/
theorem digitsValue_zeros_append (n : Nat) (ds : List Char) :
    digitsValue (List.replicate n '0' ++ ds) = digitsValue ds := by
  rw [digitsValue_eq, Nat.ofDigitChars_append, Nat.ofDigitChars_replicate_zero, Nat.mul_zero,
    digitsValue_eq]

/-- As many digits are read as there are. -/
theorem readDigits_append {ds rest : List Char} (h : IsDigits ds) (hrest : EndsDigits rest) :
    readDigits (ds ++ rest) = some (ds, rest) := by
  have hnone : rest.takeWhile Char.isDigit = [] ∧ rest.dropWhile Char.isDigit = rest := by
    cases rest with
    | nil => exact ⟨rfl, rfl⟩
    | cons c rest =>
      have hc : c.isDigit = false := hrest c rfl
      simp [hc]
  rw [readDigits, List.takeWhile_append_of_pos h.all, List.dropWhile_append_of_pos h.all, hnone.1,
    hnone.2, List.append_nil]
  cases ds with
  | nil => exact absurd rfl h.ne_nil
  | cons d ds => rfl

/-! ## Numerals -/

/-- A number by the parts of its text. -/
structure Numeral where
  /-- Whether it starts with a minus sign. -/
  negative : Bool
  /-- The digits before the point. -/
  whole : List Char
  /-- The digits after the point, if there is one. -/
  fraction : Option (List Char)
  /-- The exponent, if there is one. -/
  exponent : Option Int

namespace Numeral

variable {p : Numeral} {rest : List Char}

/-- The text after the digits before the point. -/
def afterWhole (p : Numeral) : List Char :=
  (p.fraction.elim [] fun ds => '.' :: ds) ++ p.exponent.elim [] (exponentPart true)

/-- The text of a numeral. -/
def chars (p : Numeral) : List Char :=
  if p.negative then '-' :: (p.whole ++ p.afterWhole) else p.whole ++ p.afterWhole

/-- The number that a numeral writes. -/
def number (p : Numeral) : Number :=
  ⟨p.negative, digitsValue (p.whole ++ p.fraction.getD []),
    p.exponent.getD 0 - ((p.fraction.getD []).length : Int), p.fraction.isNone && p.exponent.isNone⟩

/-- There are digits where there should be, and before the point a zero only stands alone. -/
structure Proper (p : Numeral) : Prop where
  whole : IsDigits p.whole
  zero_alone : p.whole.head? = some '0' → p.whole = ['0']
  fraction : ∀ ds ∈ p.fraction, IsDigits ds

/-- A number ends where this follows. -/
def Ends (rest : List Char) : Prop :=
  ∀ c ∈ rest.head?, c.isDigit = false ∧ c ≠ '.' ∧ c ≠ 'e' ∧ c ≠ 'E'

theorem Ends.endsDigits (h : Ends rest) : EndsDigits rest := fun c hc => (h c hc).1

/-- An exponent is read if one is written, and none if none is. -/
theorem readExponent_append (exponent : Option Int) (h : Ends rest) :
    readExponent (exponent.elim [] (exponentPart true) ++ rest) = some (exponent, rest) := by
  cases exponent with
  | none =>
    cases rest with
    | nil => rfl
    | cons c rest =>
      obtain ⟨-, -, he, hE⟩ := h c rfl
      simp [readExponent, he, hE]
  | some e =>
    cases e with
    | ofNat n =>
      simp [readExponent, exponentPart, readSignedExponent,
        readDigits_append (isDigits_natDigits n) h.endsDigits]
    | negSucc n =>
      simp [readExponent, exponentPart, readSignedExponent,
        readDigits_append (isDigits_natDigits (n + 1)) h.endsDigits]
      omega

/-- What comes behind a fraction is no digit, nor a point. -/
theorem head?_exponent (exponent : Option Int) (h : Ends rest) :
    ∀ c ∈ (exponent.elim [] (exponentPart true) ++ rest).head?, c.isDigit = false ∧ c ≠ '.' := by
  intro c hc
  rcases exponent with - | (n | n)
  · exact ⟨(h c hc).1, (h c hc).2.1⟩
  · obtain rfl : 'e' = c := Option.some.inj hc
    decide
  · obtain rfl : 'e' = c := Option.some.inj hc
    decide

/-- A fraction is read if one is written, and none if none is. -/
theorem readFraction_append {fraction : Option (List Char)} (hfraction : ∀ ds ∈ fraction, IsDigits ds)
    (h : ∀ c ∈ rest.head?, c.isDigit = false ∧ c ≠ '.') :
    readFraction ((fraction.elim [] fun ds => '.' :: ds) ++ rest) = some (fraction, rest) := by
  cases fraction with
  | none =>
    simp only [Option.elim_none, List.nil_append]
    unfold readFraction
    split
    · exact absurd rfl (h _ rfl).2
    · rfl
  | some ds =>
    simp [readFraction, readDigits_append (hfraction ds rfl) fun c hc => (h c hc).1]

/-- Digits in front are read if they do not start with a needless zero. -/
theorem readWhole_append {ds : List Char} (hds : IsDigits ds)
    (hzero : ds.head? = some '0' → ds = ['0']) (h : EndsDigits rest) :
    readWhole (ds ++ rest) = some (ds, rest) := by
  by_cases hhead : ds.head? = some '0'
  · rw [hzero hhead]
    cases rest with
    | nil => rfl
    | cons c rest =>
      have hc : c.isDigit = false := h c rfl
      simp [readWhole, hc]
  · have hread : readWhole (ds ++ rest) = readDigits (ds ++ rest) := by
      unfold readWhole
      split
      · next heq =>
        refine absurd ?_ hhead
        rw [← List.head?_append_of_ne_nil ds hds.ne_nil, heq]
        rfl
      · rfl
    rw [hread, readDigits_append hds h]

/-- Without its sign, a proper numeral is read back part by part. -/
theorem readUnsigned_append (hp : p.Proper) (h : Ends rest) (negative : Bool) :
    readUnsigned negative (p.whole ++ p.afterWhole ++ rest) =
      some ({ p with negative := negative }.number, rest) := by
  have hexponent := head?_exponent p.exponent h
  have hafter : EndsDigits (p.afterWhole ++ rest) := by
    intro c hc
    rw [afterWhole, List.append_assoc] at hc
    cases hfraction : p.fraction with
    | none =>
      rw [hfraction] at hc
      exact (hexponent c hc).1
    | some ds =>
      rw [hfraction] at hc
      obtain rfl : '.' = c := Option.some.inj hc
      decide
  rw [List.append_assoc, readUnsigned, readWhole_append hp.whole hp.zero_alone hafter, afterWhole,
    List.append_assoc]
  simp only [Option.bind_eq_bind, Option.bind_some, readFraction_append hp.fraction hexponent,
    readExponent_append p.exponent h]
  rfl

theorem Proper.exists_whole (hp : p.Proper) : ∃ c more, p.whole = c :: more ∧ c.isDigit = true := by
  obtain ⟨c, more, hwhole⟩ := List.exists_cons_of_ne_nil hp.whole.ne_nil
  exact ⟨c, more, hwhole, hp.whole.all c (by simp [hwhole])⟩

/-- The text of a numeral starts with a minus sign or a digit. -/
theorem Proper.exists_chars (hp : p.Proper) :
    ∃ c more, p.chars = c :: more ∧ (c = '-' ∨ c.isDigit = true) := by
  obtain ⟨c, more, hwhole, hc⟩ := hp.exists_whole
  rw [chars, hwhole]
  split
  · exact ⟨_, _, rfl, .inl rfl⟩
  · exact ⟨_, _, rfl, .inr hc⟩

/-- A numeral is read as its number, whatever follows that is not part of a number. -/
theorem readNumber_append (hp : p.Proper) (h : Ends rest) :
    readNumber (p.chars ++ rest) = some (p.number, rest) := by
  obtain ⟨c, more, hwhole, hc⟩ := hp.exists_whole
  have hunsigned := fun negative => readUnsigned_append hp h negative
  obtain ⟨negative, whole, fraction, exponent⟩ := p
  cases negative with
  | true => exact hunsigned true
  | false =>
    have hplain : readNumber (whole ++ afterWhole ⟨false, whole, fraction, exponent⟩ ++ rest) =
        readUnsigned false (whole ++ afterWhole ⟨false, whole, fraction, exponent⟩ ++ rest) := by
      subst hwhole
      unfold readNumber
      split
      · next heq =>
        obtain rfl := (List.cons.inj heq).1
        exact absurd hc (by decide)
      · rfl
    exact hplain.trans (hunsigned false)

/-! ## Integers -/

/-- The numeral of an integer. -/
def ofInteger (n : Int) : Numeral := ⟨decide (n < 0), natDigits n.natAbs, none, none⟩

theorem proper_ofInteger (n : Int) : (ofInteger n).Proper where
  whole := isDigits_natDigits _
  zero_alone := by
    intro hzero
    have hn := head?_natDigits hzero
    simp only [ofInteger, hn]
    rfl
  fraction := by simp [ofInteger]

theorem chars_ofInteger (n : Int) : (ofInteger n).chars = writeInteger n := by
  cases n with
  | ofNat n => simp [chars, ofInteger, afterWhole, writeInteger]
  | negSucc n => simp [chars, ofInteger, afterWhole, writeInteger]

/-- An integer is read as one, with its sign apart: there is no negative zero. -/
theorem number_ofInteger (n : Int) : (ofInteger n).number = ⟨decide (n < 0), n.natAbs, 0, true⟩ := by
  simp [number, ofInteger]

/-! ## Decimals -/

/-- The numeral of digits in a document. -/
def ofDigits (negative : Bool) (d : Digits) : Numeral :=
  let ds := natDigits d.coefficient
  let place : Int := ds.length + d.exponent
  if 0 ≤ d.exponent ∧ place ≤ documentStyle.lastPlace then
    ⟨negative, ds ++ List.replicate d.exponent.toNat '0', some ['0'], none⟩
  else if 0 < place ∧ place ≤ documentStyle.lastPlace then
    ⟨negative, ds.take place.toNat, some (ds.drop place.toNat), none⟩
  else if documentStyle.firstPlace ≤ place ∧ place ≤ 0 then
    ⟨negative, ['0'], some (List.replicate (-place).toNat '0' ++ ds), none⟩
  else ⟨negative, ds.take 1, if ds.length = 1 then none else some (ds.drop 1), some (place - 1)⟩

theorem negative_ofDigits (negative : Bool) (d : Digits) : (ofDigits negative d).negative = negative := by
  simp only [ofDigits]
  split_ifs <;> rfl

theorem unsigned_ofDigits (negative : Bool) (d : Digits) :
    (ofDigits negative d).whole ++ (ofDigits negative d).afterWhole = documentStyle.write d := by
  have hne : natDigits d.coefficient ≠ [] := (isDigits_natDigits _).ne_nil
  simp only [ofDigits, Style.write]
  generalize natDigits d.coefficient = ds at hne ⊢
  split
  · simp [afterWhole, documentStyle]
  · split
    · simp [afterWhole]
    · split
      · simp [afterWhole]
      · cases ds with
        | nil => exact absurd rfl hne
        | cons first more =>
          cases more with
          | nil => simp [afterWhole, pointAfterFirst, documentStyle]
          | cons second more => simp [afterWhole, pointAfterFirst, documentStyle]

section Forms

variable {negative : Bool} {ds : List Char}

/-- Digits before the point only, with zeros to fill the places up to it. -/
theorem proper_padded (hds : IsDigits ds) (zeros : Nat)
    (halone : ds.head? = some '0' → ds = ['0'] ∧ zeros = 0) :
    Proper ⟨negative, ds ++ List.replicate zeros '0', some ['0'], none⟩ := by
  refine ⟨hds.of_mem ?_ ?_, fun hzero => ?_, ?_⟩
  · exact List.append_ne_nil_of_left_ne_nil hds.ne_nil _
  · simp only [List.mem_append, List.mem_replicate]
    exact fun c hc => hc.imp_right (·.2)
  · rw [List.head?_append_of_ne_nil _ hds.ne_nil] at hzero
    obtain ⟨hds, hzeros⟩ := halone hzero
    simp [hds, hzeros]
  · rintro _ ⟨⟩
    exact hds.of_mem (by decide) fun c hc => .inr (List.mem_singleton.mp hc)

/-- Digits on both sides of the point. -/
theorem proper_split (hds : IsDigits ds) {place : Nat} (hpos : 0 < place) (hlt : place < ds.length)
    (hhead : ds.head? ≠ some '0') : Proper ⟨negative, ds.take place, some (ds.drop place), none⟩ := by
  refine ⟨hds.of_mem ?_ fun c hc => .inl (List.mem_of_mem_take hc), fun hzero => ?_, ?_⟩
  · rw [← List.length_pos_iff, List.length_take]
    omega
  · rw [List.head?_take, if_neg (by omega)] at hzero
    exact absurd hzero hhead
  · rintro _ ⟨⟩
    refine hds.of_mem ?_ fun c hc => .inl (List.mem_of_mem_drop hc)
    rw [← List.length_pos_iff, List.length_drop]
    omega

/-- Digits behind the point only, with zeros to fill the places down from it. -/
theorem proper_fraction (hds : IsDigits ds) (zeros : Nat) :
    Proper ⟨negative, ['0'], some (List.replicate zeros '0' ++ ds), none⟩ := by
  refine ⟨hds.of_mem (by simp) fun c hc => .inr (List.mem_singleton.mp hc), fun _ => rfl, ?_⟩
  rintro _ ⟨⟩
  refine hds.of_mem (List.append_ne_nil_of_right_ne_nil _ hds.ne_nil) ?_
  simp only [List.mem_append, List.mem_replicate]
  exact fun c hc => hc.symm.imp_right (·.2)

/-- One digit before the point, and an exponent. -/
theorem proper_afterFirst (hds : IsDigits ds) (exponent : Int) :
    Proper ⟨negative, ds.take 1, if ds.length = 1 then none else some (ds.drop 1), some exponent⟩ := by
  obtain ⟨first, more, rfl⟩ := List.exists_cons_of_ne_nil hds.ne_nil
  refine ⟨hds.of_mem (by simp) fun c hc => .inl (List.mem_of_mem_take hc), by simp, ?_⟩
  cases more with
  | nil => simp
  | cons second more =>
    rintro _ ⟨⟩
    exact hds.of_mem (by simp) fun c hc => .inl (List.mem_of_mem_drop hc)

end Forms

/-- Whichever form the exponent calls for, the numeral is proper. -/
theorem proper_ofDigits (negative : Bool) {d : Digits} (h : d.coefficient = 0 → d.exponent = 0) :
    (ofDigits negative d).Proper := by
  have hds := isDigits_natDigits d.coefficient
  have hhead : (natDigits d.coefficient).head? = some '0' →
      d.exponent = 0 ∧ natDigits d.coefficient = ['0'] := by
    intro hzero
    have hcoefficient := head?_natDigits hzero
    exact ⟨h hcoefficient, by rw [hcoefficient]; rfl⟩
  simp only [ofDigits]
  generalize natDigits d.coefficient = ds at hds hhead ⊢
  split
  · refine proper_padded hds _ fun hzero => ?_
    obtain ⟨hexponent, halone⟩ := hhead hzero
    exact ⟨halone, by rw [hexponent]; rfl⟩
  · split
    · next hlarge hplace =>
      refine proper_split hds (by omega) (by omega) fun hzero => ?_
      -- a zero alone has no place among its digits for a point
      obtain ⟨hexponent, -⟩ := hhead hzero
      omega
    · split
      · exact proper_fraction hds _
      · exact proper_afterFirst hds _

/-- The numeral of digits has their value: zeros at the end and the place of the point make up for each
other. -/
theorem nearestDecimal?_ofDigits (negative : Bool) (d : Digits) :
    nearestDecimal? (ofDigits negative d).number.coefficient (ofDigits negative d).number.exponent =
      nearestDecimal? d.coefficient d.exponent := by
  have hvalue : digitsValue (natDigits d.coefficient) = d.coefficient := digitsValue_natDigits _
  have hlength : 0 < (natDigits d.coefficient).length :=
    List.length_pos_iff.mpr (isDigits_natDigits _).ne_nil
  simp only [ofDigits]
  generalize natDigits d.coefficient = ds at hvalue hlength ⊢
  split
  · have hzeros : digitsValue (ds ++ List.replicate d.exponent.toNat '0' ++ ['0']) =
        d.coefficient * 10 ^ (d.exponent.toNat + 1) := by
      rw [List.append_assoc, ← List.replicate_succ', digitsValue_append_zeros, hvalue]
    simp only [number, Option.getD_some, Option.getD_none, hzeros, nearestDecimal?_mul_pow,
      List.length_singleton]
    congr 1
    omega
  · split
    · simp only [number, Option.getD_some, Option.getD_none, List.take_append_drop, hvalue,
        List.length_drop]
      congr 1
      omega
    · split
      · have hzeros : digitsValue (['0'] ++ (List.replicate (-(ds.length + d.exponent)).toNat '0' ++ ds)) =
            d.coefficient := by
          rw [← List.append_assoc, ← hvalue]
          exact digitsValue_zeros_append (_ + 1) ds
        simp only [number, Option.getD_some, Option.getD_none, hzeros, List.length_append,
          List.length_replicate]
        congr 1
        omega
      · have hpoint : (if ds.length = 1 then none else some (ds.drop 1)).getD [] = ds.drop 1 := by
          split
          · next hone => exact (List.drop_eq_nil_of_le (Nat.le_of_eq hone)).symm
          · rfl
        simp only [number, hpoint, Option.getD_some, List.take_append_drop, hvalue, List.length_drop]
        congr 1
        omega

/-! ## Doubles -/

/-- The numeral of a finite number in a document. -/
def ofDouble (x : Double) : Numeral := ofDigits x.isNegative (shortestDigits x.abs.bits.toNat)

theorem chars_ofDouble (x : Double) : (ofDouble x).chars = Decimal.write documentStyle x := by
  rw [ofDouble, chars, negative_ofDigits, unsigned_ofDigits, Decimal.write]

variable {x : Double}

theorem proper_ofDouble (finite : x.isFinite = true) : (ofDouble x).Proper := by
  refine proper_ofDigits _ fun hzero => ?_
  have hpattern : x.abs.bits.toNat = 0 := by
    by_contra hne
    exact coefficient_ne_zero (shortestDigits_readsBack (Double.toNat_abs_lt finite)) hne hzero
  rw [hpattern]
  rfl

/-- The numeral of a finite number says just this number, its sign included. -/
theorem toDouble?_ofDouble (finite : x.isFinite = true) :
    toDouble? (ofDouble x).number.negative (ofDouble x).number.coefficient
      (ofDouble x).number.exponent = some x := by
  have hnegative : (ofDouble x).number.negative = x.isNegative := negative_ofDigits _ _
  have hread : nearestDecimal? (ofDouble x).number.coefficient (ofDouble x).number.exponent =
      some x.abs.bits.toNat :=
    (nearestDecimal?_ofDigits _ _).trans (shortestDigits_readsBack (Double.toNat_abs_lt finite))
  rw [toDouble?, hread, hnegative, Option.map_some, UInt64.ofNat_toNat, Double.abs_or_sign]

end Numeral

end SignHash.Json
