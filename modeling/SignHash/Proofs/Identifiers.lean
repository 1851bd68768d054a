import Mathlib.Data.List.DropRight
import Mathlib.Data.List.Forall2
import SignHash.Extraction.Identifiers
import SignHash.Proofs.Requests

/-!
# Identifier lists, read and written

A list can be read exactly if its bytes are those of a text. What is read are the pieces of the text
between its line feeds, without the white space around them and without those that are nothing else:
that a carriage return before a line feed belongs to the line's ending makes no difference, since it is
white space. So lists that follow each other are read one after the other, and identifiers are read as
they were written if no line feed and no white space at the ends of one gets in the way.
-/

namespace SignHash

namespace Text

/-! ## White space at the ends -/

/-- A text is another one without the white space at its ends. -/
structure IsTrimOf (t s : String) : Prop where
  around : ∃ front back : List Char, s.toList = front ++ (t.toList ++ back) ∧
    (∀ c ∈ front, isBlank c = true) ∧ ∀ c ∈ back, isBlank c = true
  first : ∀ c, t.toList.head? = some c → isBlank c = false
  last : ∀ c, t.toList.getLast? = some c → isBlank c = false

theorem toList_trim (s : String) :
    (trim s).toList = (s.toList.dropWhile isBlank).rdropWhile isBlank := String.toList_ofList

theorem isTrimOf_trim (s : String) : IsTrimOf (trim s) s := by
  have hlist := toList_trim s
  constructor
  · refine ⟨s.toList.takeWhile isBlank, (s.toList.dropWhile isBlank).rtakeWhile isBlank, ?_, ?_, ?_⟩
    · rw [hlist, List.rdropWhile_append_rtakeWhile, List.takeWhile_append_dropWhile]
    · intro c hc
      exact List.mem_takeWhile_imp hc
    · intro c hc
      exact List.mem_rtakeWhile_imp hc
  · intro c hc
    -- nothing is left of a text without a first character, and otherwise dropping at the end keeps it
    obtain ⟨rest, hrest⟩ := List.rdropWhile_prefix isBlank (s.toList.dropWhile isBlank)
    have hfirst := List.head?_dropWhile_not isBlank s.toList
    rw [← hrest, ← hlist, List.head?_append, hc] at hfirst
    exact hfirst
  · intro c hc
    rw [hlist] at hc
    have hne : (s.toList.dropWhile isBlank).rdropWhile isBlank ≠ [] := by
      intro hnil
      rw [hnil] at hc
      cases hc
    have hlast := List.rdropWhile_last_not isBlank _ hne
    rw [List.getLast?_eq_some_getLast hne] at hc
    rw [Option.some.inj hc] at hlast
    simpa using hlast

theorem IsTrimOf.eq_trim {t s : String} (h : IsTrimOf t s) : trim s = t := by
  obtain ⟨front, back, hs, hfront, hback⟩ := h.around
  apply String.toList_inj.mp
  rw [toList_trim, hs, List.dropWhile_append_of_pos hfront]
  cases ht : t.toList with
  | nil =>
    rw [List.nil_append, List.dropWhile_eq_nil_iff.mpr hback, List.rdropWhile_nil]
  | cons c cs =>
    have hc : ¬isBlank c = true := by simp [h.first c (by rw [ht]; rfl)]
    have hlast : (c :: cs).rdropWhile isBlank = c :: cs := by
      refine List.rdropWhile_eq_self_iff.mpr fun hne => ?_
      have hkept := h.last _ (by rw [ht]; exact List.getLast?_eq_some_getLast hne)
      simp [hkept]
    have hreverse : ∀ b ∈ back.reverse, isBlank b = true :=
      fun b hb => hback b (List.mem_reverse.mp hb)
    rw [List.cons_append, List.dropWhile_cons_of_neg hc, ← List.cons_append, List.rdropWhile,
      List.reverse_append, List.dropWhile_append_of_pos hreverse]
    exact hlast

/-- There is one way to trim a text. -/
theorem trim_eq_iff {t s : String} : trim s = t ↔ IsTrimOf t s :=
  ⟨fun h => h ▸ isTrimOf_trim s, IsTrimOf.eq_trim⟩

@[simp] theorem trim_trim (s : String) : trim (trim s) = trim s :=
  have h := isTrimOf_trim s
  trim_eq_iff.mpr ⟨⟨[], [], by simp⟩, h.first, h.last⟩

theorem mem_of_mem_trim {s : String} {c : Char} (h : c ∈ (trim s).toList) : c ∈ s.toList := by
  obtain ⟨front, back, hs, -⟩ := (isTrimOf_trim s).around
  rw [hs]
  exact List.mem_append_right _ (List.mem_append_left _ h)

/-- White space that is put at the end of a text is trimmed away again. -/
theorem trim_append_blank (s : String) {c : Char} (blank : isBlank c = true) :
    trim (s ++ String.singleton c) = trim s := by
  obtain ⟨⟨front, back, hs, hfront, hback⟩, hfirst, hlast⟩ := isTrimOf_trim s
  refine trim_eq_iff.mpr ⟨⟨front, back ++ [c], ?_, hfront, ?_⟩, hfirst, hlast⟩
  · simp [hs]
  · intro b hb
    rcases List.mem_append.mp hb with hb | hb
    · exact hback b hb
    · rw [List.mem_singleton.mp hb, blank]

/-! ## Pieces of texts -/

/-- The pieces of a text between its line feeds. -/
def piecesOf (s : String) : List String := (s.toList.splitOn '\n').map String.ofList

/-- A line feed between two texts keeps their pieces apart. -/
theorem piecesOf_append_feed (a b : String) :
    piecesOf (a ++ "\n" ++ b) = piecesOf a ++ piecesOf b := by
  have hlist : (a ++ "\n" ++ b).toList = a.toList ++ '\n' :: b.toList := by simp
  rw [piecesOf, hlist, List.splitOn_append_cons_self, List.map_append]
  rfl

theorem piecesOf_of_notMem {s : String} (h : '\n' ∉ s.toList) : piecesOf s = [s] := by
  rw [piecesOf, List.splitOn_eq_singleton h, List.map_singleton, String.ofList_toList]

theorem notMem_of_mem_piecesOf {s piece : String} (h : piece ∈ piecesOf s) :
    '\n' ∉ piece.toList := by
  have hchars : ∀ cs : List Char, ∀ part ∈ cs.splitOn '\n', '\n' ∉ part := by
    intro cs
    induction cs with
    | nil => simp
    | cons c cs ih =>
      rw [List.splitOn_eq_splitOnP, List.splitOnP_cons_eq_if_modifyHead, ← List.splitOn_eq_splitOnP]
      by_cases hc : c = '\n'
      · rw [if_pos (by simpa using hc)]
        intro part hpart
        rcases List.mem_cons.mp hpart with rfl | hpart
        · exact List.not_mem_nil
        · exact ih part hpart
      · rw [if_neg (by simpa using hc)]
        cases hparts : cs.splitOn '\n' with
        | nil => simp
        | cons first more =>
          rw [hparts] at ih
          intro part hpart
          rcases List.mem_cons.mp hpart with rfl | hpart
          · rw [List.mem_cons, not_or]
            exact ⟨Ne.symm hc, ih first List.mem_cons_self⟩
          · exact ih part (List.mem_cons_of_mem _ hpart)
  obtain ⟨part, hpart, rfl⟩ := List.mem_map.mp h
  rw [String.toList_ofList]
  exact hchars _ part hpart

/-- What has no line feed goes to the front of the first piece. -/
theorem piecesBetweenFeeds_append {line : Bytes} (h : (10 : UInt8) ∉ line) (rest : Bytes) :
    piecesBetweenFeeds (line ++ rest) = (piecesBetweenFeeds rest).modifyHead (line ++ ·) := by
  induction line with
  | nil => cases hpieces : piecesBetweenFeeds rest <;> simp [hpieces]
  | cons b line ih =>
    rw [List.mem_cons, not_or] at h
    rw [List.cons_append, piecesBetweenFeeds, if_neg (Ne.symm h.1), ih h.2]
    cases hpieces : piecesBetweenFeeds rest with
    | nil => exact absurd hpieces (piecesBetweenFeeds_ne_nil rest)
    | cons piece more => rfl

/-- The bytes of a text are cut where the text is cut. -/
theorem piecesBetweenFeeds_encode (s : String) :
    piecesBetweenFeeds (Utf8.encode s) = (piecesOf s).map Utf8.encode := by
  have hchars : ∀ cs : List Char, piecesBetweenFeeds (cs.flatMap String.utf8EncodeChar) =
      (cs.splitOn '\n').map fun piece => piece.flatMap String.utf8EncodeChar := by
    intro cs
    induction cs with
    | nil => rfl
    | cons c cs ih =>
      rw [List.flatMap_cons, List.splitOn_eq_splitOnP, List.splitOnP_cons_eq_if_modifyHead,
        ← List.splitOn_eq_splitOnP]
      by_cases hc : c = '\n'
      · subst hc
        have hfeed : String.utf8EncodeChar '\n' = [10] := by decide
        rw [hfeed, List.singleton_append, piecesBetweenFeeds, if_pos rfl, ih,
          if_pos (beq_self_eq_true '\n')]
        rfl
      · have hbytes : (10 : UInt8) ∉ String.utf8EncodeChar c := by
          rw [Utf8.mem_utf8EncodeChar_iff (by decide)]
          exact fun hten => hc (Char.toNat_inj.mp hten)
        rw [piecesBetweenFeeds_append hbytes, ih, if_neg (by simpa using hc)]
        cases cs.splitOn '\n' <;> rfl
  rw [Utf8.encode_eq_flatMap, hchars, piecesOf, List.map_map]
  refine List.map_congr_left fun piece _ => ?_
  rw [Function.comp_apply, Utf8.encode_eq_flatMap, String.toList_ofList]

/-- Without a carriage return at its end, the line of a text is that of one with the same trim. -/
theorem exists_dropReturn_encode (s : String) :
    ∃ t, dropReturn (Utf8.encode s) = Utf8.encode t ∧ trim t = trim s := by
  by_cases hreturn : (Utf8.encode s).getLast? = some 13
  · obtain ⟨cs, c, hs⟩ : ∃ cs c, s = String.ofList cs ++ String.singleton c := by
      rcases List.eq_nil_or_concat s.toList with hnil | ⟨cs, c, hconcat⟩
      · rw [Utf8.encode_eq_flatMap, hnil] at hreturn
        cases hreturn
      · refine ⟨cs, c, String.toList_inj.mp ?_⟩
        simp [hconcat]
    have hchar : Utf8.encode (String.singleton c) = String.utf8EncodeChar c := by
      simp [Utf8.encode_eq_flatMap]
    have hencode : Utf8.encode s = Utf8.encode (String.ofList cs) ++ String.utf8EncodeChar c := by
      rw [hs, Utf8.encode_append, hchar]
    have hlast : (13 : UInt8) ∈ String.utf8EncodeChar c := by
      rw [hencode, List.getLast?_append_of_ne_nil _ String.utf8EncodeChar_ne_nil] at hreturn
      exact List.mem_of_getLast? hreturn
    obtain rfl : c = '\r' := Char.toNat_inj.mp ((Utf8.mem_utf8EncodeChar_iff (by decide)).mp hlast)
    refine ⟨String.ofList cs, ?_, ?_⟩
    · rw [hencode]
      exact dropReturn_concat _
    · rw [hs, trim_append_blank _ (by decide)]
  · exact ⟨s, by rw [dropReturn, if_neg hreturn], rfl⟩

end Text

open Text

/-! ## Reading -/

/-- Lines are read one by one. -/
theorem identifiersOn_append (lines more : List String) :
    identifiersOn (lines ++ more) = identifiersOn lines ++ identifiersOn more := by
  rw [identifiersOn, List.map_append, List.filter_append]
  rfl

theorem identifiersOn_cons_congr {a b : String} {lines more : List String} (first : trim a = trim b)
    (rest : identifiersOn lines = identifiersOn more) :
    identifiersOn (a :: lines) = identifiersOn (b :: more) := by
  have hcons : ∀ (s : String) (ls : List String),
      identifiersOn (s :: ls) = identifiersOn [s] ++ identifiersOn ls :=
    fun s ls => identifiersOn_append [s] ls
  rw [hcons, hcons b, rest]
  simp only [identifiersOn, List.map_singleton, first]

/-- The lines that texts are the pieces of are those of texts with the same identifiers. -/
theorem exists_linesOfPieces (texts : List String) : ∃ lines : List String,
    linesOfPieces (texts.map Utf8.encode) = lines.map Utf8.encode ∧
      identifiersOn lines = identifiersOn texts := by
  induction texts with
  | nil => exact ⟨[], rfl, rfl⟩
  | cons text texts ih =>
    cases texts with
    | nil =>
      by_cases hempty : text = ""
      · subst hempty
        exact ⟨[], rfl, by decide⟩
      · refine ⟨[text], ?_, rfl⟩
        have hbytes : (Utf8.encode text).isEmpty = false := by
          rw [List.isEmpty_eq_false_iff]
          exact fun hnil => hempty (Utf8.encode_injective hnil)
        simp [linesOfPieces, hbytes]
    | cons next texts =>
      obtain ⟨lines, hlines, hids⟩ := ih
      obtain ⟨line, hline, htrim⟩ := exists_dropReturn_encode text
      refine ⟨line :: lines, ?_, identifiersOn_cons_congr htrim hids⟩
      rw [List.map_cons, List.map_cons, linesOfPieces, hline, ← List.map_cons, hlines, List.map_cons]
      simp

/-- Lines can be decoded if each of them is a text. -/
theorem mapM_decode?_eq_some_iff {lines : List Bytes} {texts : List String} :
    lines.mapM Utf8.decode? = some texts ↔ lines = texts.map Utf8.encode := by
  induction lines generalizing texts with
  | nil => cases texts <;> simp
  | cons line lines ih =>
    rw [List.mapM_cons]
    constructor
    · intro h
      obtain ⟨text, htext, hrest⟩ := Option.bind_eq_some_iff.mp h
      obtain ⟨more, hmore, hcons⟩ := Option.bind_eq_some_iff.mp hrest
      obtain rfl : text :: more = texts := Option.some.inj hcons
      rw [List.map_cons, ← ih.mp hmore, Utf8.decode?_eq_some_iff.mp htext]
    · intro h
      obtain ⟨text, more, rfl, htext, hmore⟩ := List.map_eq_cons_iff.mp h.symm
      rw [Utf8.decode?_eq_some_iff.mpr htext.symm, ih.mpr hmore.symm]
      rfl

/-- A list that is a text is read as the identifiers on the text's pieces. -/
theorem parseIdentifiers_encode (s : String) :
    parseIdentifiers (Utf8.encode s) = .ok (identifiersOn (piecesOf s)) := by
  obtain ⟨lines, hlines, hids⟩ := exists_linesOfPieces (piecesOf s)
  have hdecode : (Text.lines (Utf8.encode s)).mapM Utf8.decode? = some lines := by
    rw [mapM_decode?_eq_some_iff, Text.lines, piecesBetweenFeeds_encode, hlines]
  simp only [parseIdentifiers, hdecode, hids]

/-- Bytes that are cut into lines of texts are those of a text. -/
theorem Text.CutIntoLines.exists_encode {bytes : Bytes} {lines : List Bytes}
    (h : CutIntoLines bytes lines) {texts : List String} (hlines : lines = texts.map Utf8.encode) :
    ∃ s, bytes = Utf8.encode s := by
  have hfeed : Utf8.encode "\n" = [10] := by decide
  have hreturn : Utf8.encode "\r\n" = [13, 10] := by decide
  induction h generalizing texts with
  | empty => exact ⟨"", rfl⟩
  | unended nonempty noFeed =>
    obtain ⟨text, rest, -, htext, -⟩ := List.map_eq_cons_iff.mp hlines.symm
    exact ⟨text, htext.symm⟩
  | byFeed noFeed noReturn others ih =>
    obtain ⟨text, more, -, htext, hmore⟩ := List.map_eq_cons_iff.mp hlines.symm
    obtain ⟨s, hs⟩ := ih hmore.symm
    exact ⟨text ++ "\n" ++ s, by simp [hfeed, htext, hs]⟩
  | byReturnAndFeed noFeed others ih =>
    obtain ⟨text, more, -, htext, hmore⟩ := List.map_eq_cons_iff.mp hlines.symm
    obtain ⟨s, hs⟩ := ih hmore.symm
    exact ⟨text ++ "\r\n" ++ s, by simp [hreturn, htext, hs]⟩

/-- What is not a text is refused as a whole, whichever of its lines is none. -/
theorem parseIdentifiers_of_garbled {bytes : Bytes} (h : ∀ s, bytes ≠ Utf8.encode s) :
    parseIdentifiers bytes = .error (.io .invalidData) := by
  cases hdecode : (Text.lines bytes).mapM Utf8.decode? with
  | none => simp only [parseIdentifiers, hdecode]
  | some texts =>
    obtain ⟨s, hs⟩ := (cutIntoLines_lines bytes).exists_encode (mapM_decode?_eq_some_iff.mp hdecode)
    exact absurd hs (h s)

/-! ## Writing -/

/-- What is on a piece has no line feed, like the piece. -/
theorem mem_identifiersOn_piecesOf {s id : String} (h : id ∈ identifiersOn (piecesOf s)) :
    id ≠ "" ∧ trim id = id ∧ '\n' ∉ id.toList := by
  obtain ⟨hmem, hne⟩ := List.mem_filter.mp h
  obtain ⟨piece, hpiece, rfl⟩ := List.mem_map.mp hmem
  refine ⟨by simpa using hne, trim_trim _, fun hfeed => ?_⟩
  exact notMem_of_mem_piecesOf hpiece (mem_of_mem_trim hfeed)

/-- The bytes that are written for identifiers are those of a text. -/
theorem exists_requestsFor_eq_encode (ids : List String) :
    ∃ s, requestsFor ids = Utf8.encode s ∧
      identifiersOn (piecesOf s) = identifiersOn (ids.flatMap piecesOf) := by
  have hfeed : Utf8.encode "\n" = [10] := by decide
  induction ids with
  | nil => exact ⟨"", rfl, by decide⟩
  | cons id ids ih =>
    obtain ⟨s, hs, hids⟩ := ih
    refine ⟨id ++ "\n" ++ s, by simp [hfeed, hs], ?_⟩
    rw [piecesOf_append_feed, List.flatMap_cons, identifiersOn_append, identifiersOn_append, hids]

/-- What is written is read as the identifiers on the pieces of those that were written. -/
theorem parseIdentifiers_requestsFor (ids : List String) :
    parseIdentifiers (requestsFor ids) = .ok (identifiersOn (ids.flatMap piecesOf)) := by
  obtain ⟨s, hs, hids⟩ := exists_requestsFor_eq_encode ids
  rw [hs, parseIdentifiers_encode, hids]

/-- Identifiers that are trimmed, and not empty, stay as they are. -/
theorem identifiersOn_of_trimmed {ids : List String}
    (trimmed : ∀ id ∈ ids, id ≠ "" ∧ trim id = id) : identifiersOn ids = ids := by
  rw [identifiersOn, List.map_congr_left fun id hid => (trimmed id hid).2, List.map_id']
  exact List.filter_eq_self.mpr fun id hid => by simpa using (trimmed id hid).1

/-- A list is read back exactly if no identifier is blank at an end, empty or over two lines. -/
theorem parseIdentifiers_requestsFor_eq_iff {ids : List String} :
    parseIdentifiers (requestsFor ids) = .ok ids ↔
      ∀ id ∈ ids, id ≠ "" ∧ trim id = id ∧ '\n' ∉ id.toList := by
  constructor
  · intro h id hid
    obtain ⟨s, hs, -⟩ := exists_requestsFor_eq_encode ids
    rw [hs, parseIdentifiers_encode] at h
    rw [← Except.ok.inj h] at hid
    exact mem_identifiersOn_piecesOf hid
  · intro h
    have hpieces : ids.flatMap piecesOf = ids := by
      rw [List.flatMap_congr fun id hid => piecesOf_of_notMem (h id hid).2.2]
      simp
    rw [parseIdentifiers_requestsFor, hpieces,
      identifiersOn_of_trimmed fun id hid => ⟨(h id hid).1, (h id hid).2.1⟩]

/-! ## The format -/

/-- A list is refused exactly if its bytes are those of no text. What is read of a text are the trimmed
pieces between its line feeds that are not empty, so that lists which a line feed separates are read one
after the other. What is written, each identifier on a line of its own, is read again as it was exactly
if no identifier is empty, has white space at an end or has a line feed; that holds of all that is ever
read. -/
theorem lists_read_as_trimmed_lines :
    (∀ bytes, parseIdentifiers bytes = .error (.io .invalidData) ↔ ∀ s, bytes ≠ Utf8.encode s) ∧
    (∀ s, ∃ texts,
      List.Forall₂ Text.IsTrimOf texts ((s.toList.splitOn '\n').map String.ofList) ∧
        parseIdentifiers (Utf8.encode s) = .ok (texts.filter (· ≠ ""))) ∧
    (∀ a b, ∃ ids more, parseIdentifiers (Utf8.encode a) = .ok ids ∧
      parseIdentifiers (Utf8.encode b) = .ok more ∧
      parseIdentifiers (Utf8.encode a ++ 10 :: Utf8.encode b) = .ok (ids ++ more)) ∧
    (∀ ids, parseIdentifiers (requestsFor ids) = .ok ids ↔
      ∀ id ∈ ids, id ≠ "" ∧ Text.trim id = id ∧ '\n' ∉ id.toList) ∧
    ∀ bytes ids, parseIdentifiers bytes = .ok ids → parseIdentifiers (requestsFor ids) = .ok ids := by
  have hfeed : Utf8.encode "\n" = [10] := by decide
  -- what is read at all is read of a text
  have htext : ∀ bytes ids, parseIdentifiers bytes = .ok ids → ∃ s, bytes = Utf8.encode s := by
    intro bytes ids hids
    by_contra hnone
    rw [parseIdentifiers_of_garbled fun s hs => hnone ⟨s, hs⟩] at hids
    cases hids
  refine ⟨fun bytes => ⟨fun h s hs => ?_, parseIdentifiers_of_garbled⟩, fun s => ?_, fun a b => ?_,
    fun ids => parseIdentifiers_requestsFor_eq_iff, fun bytes ids hids => ?_⟩
  · rw [hs, parseIdentifiers_encode] at h
    cases h
  · refine ⟨(piecesOf s).map trim, ?_, ?_⟩
    · rw [List.forall₂_map_left_iff]
      exact List.forall₂_same.mpr fun piece _ => isTrimOf_trim piece
    · rw [parseIdentifiers_encode, identifiersOn]
      refine congrArg Except.ok (List.filter_congr fun text _ => Bool.eq_iff_iff.mpr ?_)
      simp
  · refine ⟨_, _, parseIdentifiers_encode a, parseIdentifiers_encode b, ?_⟩
    have hbytes : Utf8.encode a ++ 10 :: Utf8.encode b = Utf8.encode (a ++ "\n" ++ b) := by
      simp [hfeed]
    rw [hbytes, parseIdentifiers_encode, piecesOf_append_feed, identifiersOn_append]
  · obtain ⟨s, rfl⟩ := htext bytes ids hids
    rw [parseIdentifiers_encode] at hids
    obtain rfl := Except.ok.inj hids
    exact parseIdentifiers_requestsFor_eq_iff.mpr fun id => mem_identifiersOn_piecesOf

/-- Blanks of several kinds, an empty line, and a carriage return within an identifier. -/
theorem lists_read_as_trimmed_lines_return_inside :
    parseIdentifiers (Utf8.encode "  alpha\n\tbeta\u3000\r\n\n a\rb") = .ok ["alpha", "beta", "a\rb"] ∧
      parseIdentifiers (requestsFor ["alpha", "beta", "a\rb"]) = .ok ["alpha", "beta", "a\rb"] :=
  have hread : parseIdentifiers (Utf8.encode "  alpha\n\tbeta\u3000\r\n\n a\rb") =
      .ok ["alpha", "beta", "a\rb"] := rfl
  ⟨hread, lists_read_as_trimmed_lines.2.2.2.2 _ _ hread⟩

end SignHash
