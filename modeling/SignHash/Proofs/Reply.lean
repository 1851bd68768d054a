import SignHash.Proofs.Wire
import SignHash.Wire.Reply

/-!
# Replies as bytes

Reading takes off exactly the written forms of replies, so replies in a row are told apart. A stream
of them can be cut off at any byte: what is read of it are the replies before the cut, unchanged, and
nothing is read of the one that is cut.
-/

namespace SignHash.Reply

open Wire

/-- A reply can be written: each of its lengths fits into its bytes. -/
def Fits : Reply → Prop
  | fetched d => TextFits d.id ∧ ListFits d.components
  | missing id => TextFits id
  | failed id message => TextFits id ∧ TextFits message

theorem decodes_read : Decodes read write Fits := by
  intro bytes reply rest
  simp only [read, Option.bind_eq_bind, Option.bind_eq_some_iff]
  constructor
  · rintro ⟨⟨tag, bytes'⟩, htag, hread⟩
    obtain ⟨-, rfl⟩ := (decodes_readNat 4 _ _ _).mp htag
    by_cases hlt : tag < 3
    · simp only [hlt, ↓reduceIte, Option.bind_eq_some_iff] at hread
      obtain ⟨⟨id, bytes''⟩, hid, hread⟩ := hread
      obtain ⟨fits, rfl⟩ := (decodes_readText _ _ _).mp hid
      -- the tag says which reply it is
      obtain rfl | rfl | rfl : tag = 0 ∨ tag = 1 ∨ tag = 2 := by omega
      · obtain ⟨⟨components, rest'⟩, hlist, hpair⟩ := Option.map_eq_some_iff.mp hread
        obtain ⟨rfl, rfl⟩ := Prod.mk.injEq .. |>.mp hpair
        obtain ⟨⟨hcomponents, -⟩, rfl⟩ := (decodes_readList decodes_readDouble _ _ _).mp hlist
        exact ⟨⟨fits, hcomponents⟩, by simp [write]⟩
      · obtain ⟨rfl, rfl⟩ := Prod.mk.injEq .. |>.mp (Option.some.inj hread)
        exact ⟨fits, by simp [write]⟩
      · obtain ⟨⟨message, rest'⟩, htext, hpair⟩ := Option.map_eq_some_iff.mp hread
        obtain ⟨rfl, rfl⟩ := Prod.mk.injEq .. |>.mp hpair
        obtain ⟨hmessage, rfl⟩ := (decodes_readText _ _ _).mp htext
        exact ⟨⟨fits, hmessage⟩, by simp [write]⟩
    · simp [hlt] at hread
  · rintro ⟨fits, rfl⟩
    cases reply with
    | fetched d =>
      have hlist := (decodes_readList decodes_readDouble).read_write
        (a := d.components) ⟨fits.2, fun _ _ => trivial⟩ rest
      rw [write, List.append_assoc, List.append_assoc]
      refine ⟨_, (decodes_readNat 4).read_write (by decide) _, ?_⟩
      simp [decodes_readText.read_write fits.1, hlist]
    | missing id =>
      rw [write, List.append_assoc]
      refine ⟨_, (decodes_readNat 4).read_write (by decide) _, ?_⟩
      simp [decodes_readText.read_write fits]
    | failed id message =>
      rw [write, List.append_assoc, List.append_assoc]
      refine ⟨_, (decodes_readNat 4).read_write (by decide) _, ?_⟩
      simp [decodes_readText.read_write fits.1, decodes_readText.read_write fits.2]

theorem write_ne_nil (r : Reply) : r.write ≠ [] := by
  intro hnil
  have hlen := congrArg List.length hnil
  cases r <;> simp [write] at hlen

/-! ## Streams -/

/-- Replies in a row are read back one by one, bit for bit, whatever follows them; no form is read
before its end; and of a stream that is cut off anywhere, so many replies are read exactly if the
first so many are whole, and then as these. -/
theorem stream_delimits_itself (replies : List Reply) (fits : ∀ r ∈ replies, r.Fits) :
    (∀ rest : Bytes,
      readMany read replies.length (replies.flatMap write ++ rest) = some (replies, rest)) ∧
    (∀ r ∈ replies, ∀ part : Bytes, part <+: r.write → part ≠ r.write → read part = none) ∧
    ∀ (part : Bytes) (n : Nat) (taken : List Reply) (rest : Bytes), part <+: replies.flatMap write →
      (readMany read n part = some (taken, rest) ↔
        n ≤ replies.length ∧ taken = replies.take n ∧ part = taken.flatMap write ++ rest) := by
  refine ⟨fun rest => ?_, fun r hr part cut short => ?_, fun part n taken rest cut => ?_⟩
  · exact (decodes_readMany decodes_read replies.length).read_write ⟨rfl, fits⟩ rest
  · exact decodes_read.read_eq_none (fits r hr) cut short
  · exact readMany_prefix_iff decodes_read write_ne_nil fits n cut

/-- One reply of each kind, with a NaN that carries a payload, no components and a line break; and
the stream cut off in the last component of the first. -/
theorem stream_delimits_itself_of_each_kind :
    let first : Reply := .fetched ⟨"é", [⟨0x7ff8000000000001⟩, ⟨0x8000000000000000⟩]⟩
    let replies := [first, .missing "", .fetched ⟨"", []⟩, .failed "a\nb" "é"]
    readMany read 4 (replies.flatMap write ++ [0, 0]) = some (replies, [0, 0]) ∧
      read (first.write.take 37) = none := by
  intro first replies
  have hfits : ∀ r ∈ replies, r.Fits := by
    intro r hr
    simp only [replies, first, List.mem_cons, List.not_mem_nil, or_false] at hr
    rcases hr with rfl | rfl | rfl | rfl
    · exact ⟨by decide, by decide⟩
    · show TextFits ""
      decide
    · exact ⟨by decide, by decide⟩
    · exact ⟨by decide, by decide⟩
  obtain ⟨hwhole, hcut, -⟩ := stream_delimits_itself replies hfits
  refine ⟨hwhole [0, 0], hcut first List.mem_cons_self _ (List.take_prefix _ _) ?_⟩
  decide +kernel

end SignHash.Reply
