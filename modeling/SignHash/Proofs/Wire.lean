import SignHash.Proofs.Bytes
import SignHash.Proofs.Utf8
import SignHash.Wire.Basic

/-!
# Reading and writing records

Every decoder takes off exactly what its writer writes. `Decodes` says so in one equivalence: what
is written is read back, what is read was written, and a value has no second form. Numbers and
lengths have to fit into their bytes.
-/

namespace SignHash.Wire

variable {α : Type}

/-- A decoder takes a value off exactly if the value fits and its written form is in front. -/
def Decodes (read : Decoder α) (write : α → Bytes) (Fits : α → Prop) : Prop :=
  ∀ bytes a rest, read bytes = some (a, rest) ↔ Fits a ∧ bytes = write a ++ rest

namespace Decodes

variable {read : Decoder α} {write : α → Bytes} {Fits : α → Prop}

/-- What fits is read back, whatever comes behind it. -/
theorem read_write (h : Decodes read write Fits) {a : α} (fits : Fits a) (rest : Bytes) :
    read (write a ++ rest) = some (a, rest) := (h _ _ _).mpr ⟨fits, rfl⟩

/-- What follows the value is not looked at. -/
theorem read_append (h : Decodes read write Fits) {bytes rest : Bytes} {a : α}
    (hread : read bytes = some (a, rest)) (more : Bytes) :
    read (bytes ++ more) = some (a, rest ++ more) := by
  obtain ⟨fits, rfl⟩ := (h _ _ _).mp hread
  rw [List.append_assoc]
  exact h.read_write fits _

/-- A written form that is cut off before its end is not read. -/
theorem read_eq_none (h : Decodes read write Fits) {a : α} (fits : Fits a) {part : Bytes}
    (cut : part <+: write a) (short : part ≠ write a) : read part = none := by
  obtain ⟨lost, hlost⟩ := cut
  cases hread : read part with
  | none => rfl
  | some out =>
    -- with the bytes that were cut off it would be read with some left over
    have hwhole := h.read_append hread lost
    have hexact := h.read_write fits []
    rw [hlost] at hwhole
    rw [List.append_nil, hwhole] at hexact
    obtain ⟨-, hnil⟩ := Prod.mk.injEq .. |>.mp (Option.some.inj hexact)
    obtain ⟨-, rfl⟩ := List.append_eq_nil_iff.mp hnil
    rw [List.append_nil] at hlost
    exact absurd hlost short

/-- What is read where values follow each other is the first of them. -/
theorem read_eq_head (h : Decodes read write Fits) (nonempty : ∀ a, write a ≠ []) {as : List α}
    (fits : ∀ a ∈ as, Fits a) {bytes rest : Bytes} {a : α} (sent : bytes <+: as.flatMap write)
    (hread : read bytes = some (a, rest)) :
    ∃ as', as = a :: as' ∧ bytes = write a ++ rest ∧ rest <+: as'.flatMap write := by
  obtain ⟨more, hmore⟩ := sent
  have hext := h.read_append hread more
  rw [hmore] at hext
  cases as with
  | nil =>
    obtain ⟨-, hnil⟩ := (h _ _ _).mp hext
    obtain ⟨hwrite, -⟩ := List.append_eq_nil_iff.mp hnil.symm
    exact absurd hwrite (nonempty a)
  | cons b as =>
    rw [List.flatMap_cons, h.read_write (fits b List.mem_cons_self)] at hext
    obtain ⟨rfl, hrest⟩ := Prod.mk.injEq .. |>.mp (Option.some.inj hext)
    exact ⟨as, rfl, ((h _ _ _).mp hread).2, ⟨more, hrest.symm⟩⟩

/-- Values whose written forms are at the front of those of others are the first of them. -/
theorem prefix_of_flatMap (h : Decodes read write Fits) (nonempty : ∀ a, write a ≠ [])
    {as taken : List α} (fits : ∀ a ∈ as, Fits a) (hfits : ∀ a ∈ taken, Fits a)
    (sent : taken.flatMap write <+: as.flatMap write) : taken <+: as := by
  induction taken generalizing as with
  | nil => exact List.nil_prefix
  | cons a taken ih =>
    obtain ⟨ha, htaken⟩ := List.forall_mem_cons.mp hfits
    rw [List.flatMap_cons] at sent
    obtain ⟨as', rfl, -, hrest⟩ := h.read_eq_head nonempty fits sent (h.read_write ha _)
    obtain ⟨-, fits'⟩ := List.forall_mem_cons.mp fits
    exact List.cons_prefix_cons.mpr ⟨rfl, ih fits' htaken hrest⟩

end Decodes

/-! ## Numbers and truth values -/

theorem decodes_readBytes (n : Nat) : Decodes (readBytes n) id (fun part => part.length = n) := by
  intro bytes part rest
  induction n generalizing bytes part with
  | zero => cases part <;> simp [readBytes, eq_comm]
  | succ n ih =>
    cases bytes with
    | nil => cases part <;> simp [readBytes]
    | cons b bytes =>
      rw [readBytes, Option.map_eq_some_iff]
      constructor
      · rintro ⟨⟨part', rest'⟩, hread, hpair⟩
        obtain ⟨rfl, rfl⟩ := Prod.mk.injEq .. |>.mp hpair
        obtain ⟨hlen, rfl⟩ := (ih _ _).mp hread
        exact ⟨by simpa using hlen, rfl⟩
      · rintro ⟨hlen, heq⟩
        cases part with
        | nil => simp at hlen
        | cons c part =>
          obtain ⟨rfl, rfl⟩ := List.cons.injEq .. |>.mp heq
          exact ⟨(part, rest), (ih _ _).mpr ⟨by simpa using hlen, rfl⟩, rfl⟩

theorem decodes_readNat (width : Nat) :
    Decodes (readNat width) (littleEndian width) (· < 256 ^ width) := by
  intro bytes n rest
  rw [readNat, Option.map_eq_some_iff]
  constructor
  · rintro ⟨⟨part, rest'⟩, hread, hpair⟩
    obtain ⟨rfl, rfl⟩ := Prod.mk.injEq .. |>.mp hpair
    obtain ⟨rfl, rfl⟩ := (decodes_readBytes width _ _ _).mp hread
    exact ⟨ofLittleEndian_lt part, by rw [littleEndian_ofLittleEndian]; rfl⟩
  · rintro ⟨hn, rfl⟩
    refine ⟨(littleEndian width n, rest), ?_, by rw [ofLittleEndian_littleEndian hn]⟩
    exact (decodes_readBytes width).read_write (length_littleEndian width n) rest

/-- A truth value is one byte, and no byte but zero or one is read. -/
theorem decodes_readBool : Decodes readBool writeBool (fun _ => True) := by
  intro bytes b rest
  rw [true_and]
  constructor
  · intro h
    unfold readBool at h
    split at h <;> cases h <;> rfl
  · rintro rfl
    cases b <;> rfl

theorem decodes_readDouble : Decodes readDouble writeDouble (fun _ => True) := by
  intro bytes x rest
  rw [readDouble, Option.map_eq_some_iff, true_and, writeDouble]
  constructor
  · rintro ⟨⟨n, rest'⟩, hread, hpair⟩
    obtain ⟨rfl, rfl⟩ := Prod.mk.injEq .. |>.mp hpair
    obtain ⟨hn, rfl⟩ := (decodes_readNat 8 _ _ _).mp hread
    rw [UInt64.toNat_ofNat_of_lt' (by simpa [UInt64.size] using hn)]
  · rintro rfl
    have hx : x.bits.toNat < 256 ^ 8 := x.bits.toNat_lt
    exact ⟨_, (decodes_readNat 8).read_write hx rest, by rw [UInt64.ofNat_toNat]⟩

/-! ## Lists and texts -/

/-- A list can be written: its length fits into eight bytes, as that of every list in memory. -/
def ListFits (items : List α) : Prop := items.length < 256 ^ 8

/-- A text can be written: the number of its bytes fits into eight bytes. -/
def TextFits (s : String) : Prop := ListFits (Utf8.encode s)

instance (items : List α) : Decidable (ListFits items) := inferInstanceAs (Decidable (_ < _))

instance (s : String) : Decidable (TextFits s) := inferInstanceAs (Decidable (ListFits _))

section

variable {item : Decoder α} {write : α → Bytes} {Fits : α → Prop}

/-- So many items are read, one after the other. -/
theorem decodes_readMany (h : Decodes item write Fits) (n : Nat) :
    Decodes (readMany item n) (List.flatMap write) (fun as => as.length = n ∧ ∀ a ∈ as, Fits a) := by
  intro bytes as rest
  induction n generalizing bytes as with
  | zero => cases as <;> simp [readMany, eq_comm]
  | succ n ih =>
    rw [readMany]
    constructor
    · intro hread
      split at hread
      · cases hread
      · next a bytes' hitem =>
        obtain ⟨⟨as', rest'⟩, hmany, hpair⟩ := Option.map_eq_some_iff.mp hread
        obtain ⟨rfl, rfl⟩ := Prod.mk.injEq .. |>.mp hpair
        obtain ⟨ha, rfl⟩ := (h _ _ _).mp hitem
        obtain ⟨⟨hlen, has⟩, rfl⟩ := (ih _ _).mp hmany
        exact ⟨⟨by simpa using hlen, List.forall_mem_cons.mpr ⟨ha, has⟩⟩, by simp⟩
    · rintro ⟨⟨hlen, has⟩, rfl⟩
      cases as with
      | nil => simp at hlen
      | cons a as =>
        obtain ⟨ha, has⟩ := List.forall_mem_cons.mp has
        have hmany := (ih _ _).mpr ⟨⟨by simpa using hlen, has⟩, rfl⟩
        rw [List.flatMap_cons, List.append_assoc, h.read_write ha]
        exact Option.map_eq_some_iff.mpr ⟨_, hmany, rfl⟩

/-- Of values that follow each other, cut off anywhere, as many are read as are whole, as they were. -/
theorem readMany_prefix_iff (h : Decodes item write Fits) (nonempty : ∀ a, write a ≠ [])
    {as taken : List α} (fits : ∀ a ∈ as, Fits a) {part rest : Bytes} (n : Nat)
    (cut : part <+: as.flatMap write) :
    readMany item n part = some (taken, rest) ↔
      n ≤ as.length ∧ taken = as.take n ∧ part = taken.flatMap write ++ rest := by
  rw [decodes_readMany h n part taken rest]
  constructor
  · rintro ⟨⟨rfl, hfits⟩, rfl⟩
    have hsent : taken.flatMap write <+: as.flatMap write :=
      (List.prefix_append _ rest).trans cut
    have hfirst := h.prefix_of_flatMap nonempty fits hfits hsent
    exact ⟨hfirst.length_le, List.prefix_iff_eq_take.mp hfirst, rfl⟩
  · rintro ⟨hn, rfl, rfl⟩
    refine ⟨⟨?_, fun a ha => fits a (List.mem_of_mem_take ha)⟩, rfl⟩
    rw [List.length_take]
    omega

/-- Values that follow each other are read with nothing left over in one way: all of them. -/
theorem readMany_flatMap_iff (h : Decodes item write Fits) (nonempty : ∀ a, write a ≠ [])
    {as taken : List α} (fits : ∀ a ∈ as, Fits a) (n : Nat) :
    readMany item n (as.flatMap write) = some (taken, []) ↔ n = as.length ∧ taken = as := by
  rw [readMany_prefix_iff h nonempty fits n List.prefix_rfl, List.append_nil]
  constructor
  · rintro ⟨hn, rfl, hall⟩
    -- what is not taken has no bytes
    have hrest : (as.drop n).flatMap write = [] := by
      have happend := congrArg (List.flatMap write) (List.take_append_drop n as)
      rwa [List.flatMap_append, hall, List.append_right_eq_self] at happend
    cases hdrop : as.drop n with
    | nil =>
      have hlength : n = as.length := Nat.le_antisymm hn (List.drop_eq_nil_iff.mp hdrop)
      exact ⟨hlength, by rw [hlength, List.take_length]⟩
    | cons a more =>
      rw [hdrop, List.flatMap_cons] at hrest
      exact absurd (List.append_eq_nil_iff.mp hrest).1 (nonempty a)
  · rintro ⟨rfl, rfl⟩
    exact ⟨Nat.le_refl _, List.take_length.symm, rfl⟩

/-- A list is its length and its items. -/
theorem decodes_readList (h : Decodes item write Fits) :
    Decodes (readList item) (writeList write) (fun as => ListFits as ∧ ∀ a ∈ as, Fits a) := by
  intro bytes as rest
  rw [readList, Option.bind_eq_some_iff, writeList, writeWord]
  constructor
  · rintro ⟨⟨n, bytes'⟩, hlength, hmany⟩
    obtain ⟨hn, rfl⟩ := (decodes_readNat 8 _ _ _).mp hlength
    obtain ⟨⟨rfl, has⟩, rfl⟩ := (decodes_readMany h n _ _ _).mp hmany
    exact ⟨⟨hn, has⟩, by simp⟩
  · rintro ⟨⟨hn, has⟩, rfl⟩
    rw [List.append_assoc]
    exact ⟨_, (decodes_readNat 8).read_write hn _, (decodes_readMany h _).read_write ⟨rfl, has⟩ rest⟩

end

theorem decodes_readText : Decodes readText writeText TextFits := by
  intro bytes s rest
  simp only [readText, Option.bind_eq_bind, Option.bind_eq_some_iff, Option.pure_def, writeText,
    writeWord]
  constructor
  · rintro ⟨⟨n, bytes'⟩, hlength, ⟨content, rest'⟩, hcontent, s', htext, hpair⟩
    obtain ⟨rfl, rfl⟩ := Prod.mk.injEq .. |>.mp (Option.some.inj hpair)
    obtain ⟨hn, rfl⟩ := (decodes_readNat 8 _ _ _).mp hlength
    obtain ⟨rfl, rfl⟩ := (decodes_readBytes _ _ _ _).mp hcontent
    rw [Utf8.decode?_eq_some_iff] at htext
    subst htext
    exact ⟨hn, by simp⟩
  · rintro ⟨hfits, rfl⟩
    rw [List.append_assoc]
    exact ⟨_, (decodes_readNat 8).read_write hfits _, _, (decodes_readBytes _).read_write rfl rest, s,
      Utf8.decode?_encode s, rfl⟩

end SignHash.Wire
