import SignHash.Extraction.Pool
import SignHash.Proofs.Utf8

/-!
# Requests in lines

Every byte string is cut into lines in one way, by `CutIntoLines`. Identifiers without line breaks
pass through the lines of a request unchanged: cut into lines, the requests for them are their forms
in bytes, and a whole line at the front is that of the first.
-/

namespace SignHash

/-! ## Lines -/

/-- A list is cut at the first of its separators in one way only. -/
theorem append_cons_unique {α : Type} {b : α} {xs xs' ys ys' : List α} (h : b ∉ xs) (h' : b ∉ xs')
    (heq : xs ++ b :: ys = xs' ++ b :: ys') : xs = xs' ∧ ys = ys' := by
  induction xs generalizing xs' with
  | nil =>
    cases xs' with
    | nil => exact ⟨rfl, (List.cons.inj heq).2⟩
    | cons x' xs' => exact absurd (List.cons.inj heq).1 (fun hx => h' (hx ▸ List.mem_cons_self))
  | cons x xs ih =>
    cases xs' with
    | nil => exact absurd (List.cons.inj heq).1 (fun hx => h (hx ▸ List.mem_cons_self))
    | cons x' xs' =>
      obtain ⟨rfl, htail⟩ := List.cons.inj heq
      obtain ⟨rfl, rfl⟩ :=
        ih (fun hb => h (List.mem_cons_of_mem _ hb)) (fun hb => h' (List.mem_cons_of_mem _ hb)) htail
      exact ⟨rfl, rfl⟩

theorem find?_breaksLines_eq_none_iff {ids : List String} :
    ids.find? breaksLines = none ↔ ∀ id ∈ ids, breaksLines id = false := by
  rw [List.find?_eq_none]
  simp only [Bool.not_eq_true]

/-- The bytes of a text without line breaks are no line breaks either. -/
theorem notMem_encode_of_plain {id : String} (plain : breaksLines id = false) :
    (10 : UInt8) ∉ Utf8.encode id ∧ (13 : UInt8) ∉ Utf8.encode id := by
  have hplain : ∀ c ∈ id.toList, c ≠ '\n' ∧ c ≠ '\r' := by
    intro c hc
    have := List.any_eq_false.mp plain c hc
    simpa using this
  -- a byte below 128 is in the form only if its character is in the text
  constructor
  · rw [Utf8.mem_encode_iff (by decide)]
    rintro ⟨c, hc, hval⟩
    exact (hplain c hc).1 (Char.toNat_inj.mp hval)
  · rw [Utf8.mem_encode_iff (by decide)]
    rintro ⟨c, hc, hval⟩
    exact (hplain c hc).2 (Char.toNat_inj.mp hval)

theorem dropReturn_of_notMem {line : Bytes} (h : (13 : UInt8) ∉ line) :
    Text.dropReturn line = line := by
  rw [Text.dropReturn, if_neg]
  intro hlast
  exact h (List.mem_of_getLast? hlast)

@[simp] theorem requestsFor_nil : requestsFor [] = [] := rfl

@[simp] theorem requestsFor_cons (id : String) (ids : List String) :
    requestsFor (id :: ids) = Utf8.encode id ++ 10 :: requestsFor ids := by
  simp [requestsFor]

namespace Text

theorem piecesBetweenFeeds_ne_nil (bytes : Bytes) : piecesBetweenFeeds bytes ≠ [] := by
  cases bytes with
  | nil => simp [piecesBetweenFeeds]
  | cons b rest =>
    rw [piecesBetweenFeeds]
    split
    · exact List.cons_ne_nil _ _
    · split <;> exact List.cons_ne_nil _ _

theorem piecesBetweenFeeds_line {line : Bytes} (h : (10 : UInt8) ∉ line) (rest : Bytes) :
    piecesBetweenFeeds (line ++ 10 :: rest) = line :: piecesBetweenFeeds rest := by
  induction line with
  | nil => simp [piecesBetweenFeeds]
  | cons b line ih =>
    rw [List.mem_cons, not_or] at h
    obtain ⟨hb, hline⟩ := h
    rw [List.cons_append, piecesBetweenFeeds, if_neg (Ne.symm hb), ih hline]

/-- The bytes up to the first line feed are the first line. -/
theorem lines_line {line : Bytes} (h : (10 : UInt8) ∉ line) (rest : Bytes) :
    lines (line ++ 10 :: rest) = dropReturn line :: lines rest := by
  rw [lines, piecesBetweenFeeds_line h]
  cases hpieces : piecesBetweenFeeds rest with
  | nil => exact absurd hpieces (piecesBetweenFeeds_ne_nil rest)
  | cons piece more => rw [linesOfPieces, lines, hpieces]; exact List.cons_ne_nil _ _

theorem piecesBetweenFeeds_of_notMem {line : Bytes} (h : (10 : UInt8) ∉ line) :
    piecesBetweenFeeds line = [line] := by
  induction line with
  | nil => rfl
  | cons b line ih =>
    rw [List.mem_cons, not_or] at h
    obtain ⟨hb, hline⟩ := h
    rw [piecesBetweenFeeds, if_neg (Ne.symm hb), ih hline]

/-- Bytes without a line feed are one line, and keep a carriage return at their end. -/
theorem lines_of_notMem {line : Bytes} (nonempty : line ≠ []) (h : (10 : UInt8) ∉ line) :
    lines line = [line] := by
  rw [lines, piecesBetweenFeeds_of_notMem h, linesOfPieces, if_neg]
  rwa [List.isEmpty_iff]

theorem dropReturn_concat (line : Bytes) : dropReturn (line ++ [13]) = line := by
  simp [dropReturn]

/-- A byte string is cut into lines. A line feed ends a line, and takes one carriage return directly
before it along; what follows the last line feed is a line as it is, unless it is empty. -/
inductive CutIntoLines : Bytes → List Bytes → Prop where
  | empty : CutIntoLines [] []
  | unended {line : Bytes} (nonempty : line ≠ []) (noFeed : (10 : UInt8) ∉ line) :
      CutIntoLines line [line]
  | byFeed {line rest : Bytes} {more : List Bytes} (noFeed : (10 : UInt8) ∉ line)
      (noReturn : line.getLast? ≠ some 13) (others : CutIntoLines rest more) :
      CutIntoLines (line ++ 10 :: rest) (line :: more)
  | byReturnAndFeed {line rest : Bytes} {more : List Bytes} (noFeed : (10 : UInt8) ∉ line)
      (others : CutIntoLines rest more) : CutIntoLines (line ++ 13 :: 10 :: rest) (line :: more)

/-- There is only one cut into lines. -/
theorem CutIntoLines.eq_lines {bytes : Bytes} {ls : List Bytes} (h : CutIntoLines bytes ls) :
    ls = lines bytes := by
  induction h with
  | empty => rfl
  | unended nonempty noFeed => rw [lines_of_notMem nonempty noFeed]
  | byFeed noFeed noReturn others ih => rw [lines_line noFeed, dropReturn, if_neg noReturn, ih]
  | @byReturnAndFeed line rest more noFeed others ih =>
    have hline : (10 : UInt8) ∉ line ++ [13] := by simpa using noFeed
    have happend : line ++ 13 :: 10 :: rest = (line ++ [13]) ++ 10 :: rest := by simp
    rw [happend, lines_line hline, dropReturn_concat, ih]

theorem cutIntoLines_lines (bytes : Bytes) : CutIntoLines bytes (lines bytes) := by
  -- on the length: what follows the first line feed is shorter
  induction hlength : bytes.length using Nat.strongRecOn generalizing bytes with
  | ind n ih =>
    by_cases hfeed : (10 : UInt8) ∈ bytes
    · obtain ⟨line, rest, rfl, hline⟩ := List.eq_append_cons_of_mem hfeed
      have hrest : CutIntoLines rest (lines rest) :=
        ih rest.length (by rw [← hlength, List.length_append, List.length_cons]; omega) rest rfl
      rw [lines_line hline]
      by_cases hreturn : line.getLast? = some 13
      · obtain ⟨content, rfl⟩ := List.getLast?_eq_some_iff.mp hreturn
        rw [dropReturn_concat, List.append_assoc]
        exact .byReturnAndFeed (fun h => hline (List.mem_append_left _ h)) hrest
      · rw [dropReturn, if_neg hreturn]
        exact .byFeed hline hreturn hrest
    · by_cases hempty : bytes = []
      · subst hempty
        exact .empty
      · rw [lines_of_notMem hempty hfeed]
        exact .unended hempty hfeed

/-- Every byte string is cut into lines in one way. -/
theorem cutIntoLines_iff {bytes : Bytes} {ls : List Bytes} :
    CutIntoLines bytes ls ↔ ls = lines bytes :=
  ⟨CutIntoLines.eq_lines, fun h => h ▸ cutIntoLines_lines bytes⟩

end Text

/-- Each request is read as a line of its own. -/
theorem lines_requestsFor {ids : List String} (plain : ∀ id ∈ ids, breaksLines id = false) :
    Text.lines (requestsFor ids) = ids.map Utf8.encode := by
  induction ids with
  | nil => rfl
  | cons id ids ih =>
    obtain ⟨hid, hids⟩ := List.forall_mem_cons.mp plain
    obtain ⟨hfeed, hreturn⟩ := notMem_encode_of_plain hid
    rw [requestsFor_cons, Text.lines_line hfeed, dropReturn_of_notMem hreturn, ih hids, List.map_cons]

/-- A whole line at the front of requests is that of the first identifier. -/
theorem exists_cons_of_requestsFor {line rest : Bytes} {ids : List String}
    (plain : ∀ id ∈ ids, breaksLines id = false) (whole : (10 : UInt8) ∉ line)
    (h : line ++ 10 :: rest = requestsFor ids) :
    ∃ id ids', ids = id :: ids' ∧ line = Utf8.encode id ∧ rest = requestsFor ids' := by
  cases ids with
  | nil => simp at h
  | cons id ids =>
    rw [requestsFor_cons] at h
    have hfeed := (notMem_encode_of_plain (plain id List.mem_cons_self)).1
    obtain ⟨hline, hrest⟩ := append_cons_unique whole hfeed h
    exact ⟨id, ids, rfl, hline, hrest⟩

/-- No carriage return can be dropped from an identifier without line breaks. -/
theorem decode?_dropReturn_encode {id : String} (plain : breaksLines id = false) :
    Utf8.decode? (Text.dropReturn (Utf8.encode id)) = some id := by
  rw [dropReturn_of_notMem (notMem_encode_of_plain plain).2, Utf8.decode?_encode]

end SignHash
