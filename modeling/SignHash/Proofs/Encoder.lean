import SignHash.Encoder
import SignHash.Proofs.Fit
import SignHash.Proofs.Record

/-!
# Codes of descriptors

An encoder that is made of a fitted model, or of one that was read, has a hyperplane for each bit and
in each of them a coefficient for each dimension. So every descriptor of the model's dimension with
finite components has a code of the model's length, and all others are refused by name.
-/

namespace SignHash

universe u

/-- There is a product of lists of one length. -/
theorem dotProduct?_of_length {α : Type u} [Add α] [Mul α] [Zero α] {x y : List α}
    (h : x.length = y.length) : ∃ sum, dotProduct? x y = some sum := by
  rw [dotProduct?, if_pos h]
  split
  · exact ⟨_, rfl⟩
  · exact ⟨_, rfl⟩

namespace Model

section

variable {α : Type u} [Add α] [Mul α] [Zero α] (m : Model α)

@[simp] theorem length_hyperplanes : m.hyperplanes.length = m.bitLength := by simp [hyperplanes]

/-- A hyperplane has as many coefficients as the model has dimensions. -/
theorem length_coefficients {plane : Hyperplane α} (h : plane ∈ m.hyperplanes) :
    plane.coefficients.length = m.dimension := by
  obtain ⟨c, -, rfl⟩ := List.mem_map.mp h
  exact Vector.length_toList

end

/-- A hyperplane of a model and a prepared vector have as many numbers, so there is always a sum that
decides on which side the vector is. -/
theorem exists_isBelow_eq (m : Model Double) {plane : Hyperplane Double} (h : plane ∈ m.hyperplanes)
    (x : Vector Double m.dimension) : ∃ sum,
      dotProduct? plane.coefficients (m.prepare x).toList = some sum ∧
        plane.isBelow (m.prepare x).toList = decide (0 ≤ sum) := by
  have hlength : plane.coefficients.length = (m.prepare x).toList.length := by
    rw [m.length_coefficients h, Vector.length_toList]
  obtain ⟨sum, hsum⟩ := dotProduct?_of_length hlength
  exact ⟨sum, hsum, by rw [Hyperplane.isBelow, hsum]; rfl⟩

end Model

/-! ## Encoders that can be come by -/

namespace Encoder

/-- The encoders of models that a fit comes to, or that bytes hold. -/
inductive Produced : Encoder → Prop where
  | fitted {c : Corpus} {p : FitParams} {drawn : Nat} {f : Fit} (h : fit c p drawn = .ok f) :
    Produced (ofModel f.model)
  | loaded {bytes : Bytes} {m : Model Double} (h : Model.ofBytes bytes = .ok m) :
    Produced (ofModel m)

theorem Produced.planes_eq {e : Encoder} (h : e.Produced) : e.planes = e.model.hyperplanes := by
  cases h with
  | fitted => rfl
  | loaded => rfl

/-- The shape of a model comes from the fit, or from the check that loading makes. -/
theorem Produced.bounds {e : Encoder} (h : e.Produced) :
    1 ≤ e.model.bitLength ∧ e.model.bitLength ≤ e.model.dimension := by
  cases h with
  | fitted h =>
    obtain ⟨hdimension, hbits, hpos, hle⟩ := shape_of_fit h
    rw [ofModel, hdimension, hbits]
    exact ⟨hpos, hle⟩
  | loaded h =>
    obtain ⟨hpos, hle, -⟩ := Model.issue?_eq_none_iff.mp (Model.ofBytes_eq_ok_iff.mp h).1
    exact ⟨hpos, hle⟩

/-- A descriptor that a model can be asked about: it has the model's dimension and is finite. -/
def Takes (e : Encoder) (d : Descriptor) : Prop :=
  d.components.length = e.model.dimension ∧ ∀ x ∈ d.components, x.isFinite = true

/-- What is taken is encoded: prepared, and compared with each hyperplane. -/
theorem Takes.exists_encode {e : Encoder} {d : Descriptor} (h : e.Takes d) :
    ∃ x : Vector Double e.model.dimension, x.toList = d.components ∧
      e.encode d = .ok (Code.ofBits (Model.bitsAgainst e.planes (e.model.prepare x).toList)) := by
  obtain ⟨hlength, hfinite⟩ := h
  refine ⟨⟨d.components.toArray, by simpa using hlength⟩, rfl, ?_⟩
  rw [encode, encodeComponents, dif_pos hlength, if_pos (List.all_eq_true.mpr hfinite)]

/-- What is refused is refused for its dimension or for its values, and by name. -/
theorem encode_eq_error {e : Encoder} {d : Descriptor} (h : ¬e.Takes d) :
    e.encode d = .error (.validation (.ofDescriptor d.id
      (if d.components.length = e.model.dimension then .nonFiniteComponents
        else .componentCount e.model.dimension d.components.length))) := by
  rw [encode, encodeComponents]
  by_cases hlength : d.components.length = e.model.dimension
  · have hinfinite : ¬d.components.all Double.isFinite = true :=
      fun hall => h ⟨hlength, List.all_eq_true.mp hall⟩
    rw [dif_pos hlength, if_neg hinfinite, if_pos hlength]
  · rw [dif_neg hlength, if_neg hlength]

/-- Nothing but what is taken is encoded. -/
theorem exists_encode_iff {e : Encoder} {d : Descriptor} :
    (∃ code, e.encode d = .ok code) ↔ e.Takes d := by
  constructor
  · rintro ⟨code, hcode⟩
    by_contra h
    rw [encode_eq_error h] at hcode
    cases hcode
  · intro h
    obtain ⟨x, -, hx⟩ := h.exists_encode
    exact ⟨_, hx⟩

/-- The encoder of a model that was fitted or read has a code for exactly the descriptors of the
model's dimension with finite components, of as many bits as the model has, and refuses the others by
name. Each bit is decided by a sum of products: no hyperplane has another dimension than what is
compared with it. -/
theorem encode_is_total {e : Encoder} (h : e.Produced) (d : Descriptor) :
    ((∃ code, e.encode d = .ok code) ↔
      d.components.length = e.model.dimension ∧ ∀ x ∈ d.components, x.isFinite = true) ∧
    (∀ code, e.encode d = .ok code →
      code.length = e.model.bitLength ∧ 1 ≤ code.length ∧ code.length ≤ e.model.dimension) ∧
    (∀ cause, e.encode d = .error cause →
      ∃ issue, cause = .validation (.ofDescriptor d.id issue) ∧
        cause.message = "validation error: " ++ ("descriptor '" ++ d.id ++ "': " ++ issue.message)) ∧
    e.planes.length = e.model.bitLength ∧
    (∀ plane ∈ e.planes, plane.coefficients.length = e.model.dimension) ∧
    ∀ plane ∈ e.planes, ∀ x : Vector Double e.model.dimension, ∃ sum,
      dotProduct? plane.coefficients (e.model.prepare x).toList = some sum ∧
        plane.isBelow (e.model.prepare x).toList = decide (0 ≤ sum) := by
  obtain ⟨hpos, hle⟩ := h.bounds
  have hplanes := h.planes_eq
  have hlength : e.planes.length = e.model.bitLength := by rw [hplanes, Model.length_hyperplanes]
  refine ⟨exists_encode_iff, fun code hcode => ?_, fun cause hcause => ?_, hlength, ?_, ?_⟩
  · obtain ⟨x, -, hx⟩ := (exists_encode_iff.mp ⟨code, hcode⟩).exists_encode
    obtain rfl := Except.ok.inj (hx.symm.trans hcode)
    have hbits : (Code.ofBits (Model.bitsAgainst e.planes (e.model.prepare x).toList)).length =
        e.model.bitLength := (List.length_map _).trans hlength
    rw [hbits]
    exact ⟨rfl, hpos, hle⟩
  · have hrefused : ¬e.Takes d := by
      intro htakes
      obtain ⟨x, -, hx⟩ := htakes.exists_encode
      rw [hx] at hcause
      cases hcause
    obtain rfl := Except.error.inj ((encode_eq_error hrefused).symm.trans hcause)
    exact ⟨_, rfl, rfl⟩
  · intro plane hplane
    exact e.model.length_coefficients (hplanes ▸ hplane)
  · intro plane hplane x
    exact e.model.exists_isBelow_eq (hplanes ▸ hplane) x

/-- A model of two bits for three dimensions gives two bits for a descriptor of three numbers. A pair is
refused, and so is a descriptor with an infinite component, both by name. -/
theorem encode_is_total_quarterTurn :
    let e := ofModel Model.quarterTurn
    (∃ code, e.encode ⟨"a", [Double.half, 0, -1]⟩ = .ok code ∧ code.length = 2) ∧
      (∃ issue, e.encode ⟨"b", [0, 1]⟩ = .error (.validation (.ofDescriptor "b" issue))) ∧
      ∃ issue, e.encode ⟨"c", [0, ⟨0x7ff0000000000000⟩, 1]⟩ =
        .error (.validation (.ofDescriptor "c" issue)) := by
  intro e
  have hissue : Model.quarterTurn.issue? = none := by decide +kernel
  have hread : Model.ofBytes Model.quarterTurn.toBytes = .ok Model.quarterTurn :=
    Model.ofBytes_toBytes hissue (by decide)
  have htotal := fun d => encode_is_total (.loaded hread) d
  have hrefused : ∀ d : Descriptor, ¬(d.components.length = 3 ∧ ∀ x ∈ d.components, x.isFinite = true) →
      ∃ issue, e.encode d = .error (.validation (.ofDescriptor d.id issue)) := by
    intro d hd
    cases hcode : e.encode d with
    | ok code => exact absurd ((htotal d).1.mp ⟨code, hcode⟩) hd
    | error cause =>
      obtain ⟨issue, rfl, -⟩ := (htotal d).2.2.1 cause hcode
      exact ⟨issue, rfl⟩
  obtain ⟨code, hcode⟩ := (htotal ⟨"a", [Double.half, 0, -1]⟩).1.mpr ⟨rfl, by decide⟩
  exact ⟨⟨code, hcode, ((htotal _).2.1 code hcode).1⟩, hrefused _ (by decide), hrefused _ (by decide)⟩

end Encoder

end SignHash
