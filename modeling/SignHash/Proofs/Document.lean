import SignHash.Json.Decode
import SignHash.Proofs.Numeral

/-!
# Documents written and read

A document is read back from its text, whether written in one line or over many. Reading asks of what
follows a value only that it does not go on with a number, and skips the white space that the two
ways of writing differ in.
-/

namespace SignHash.Json

open Numeral (Ends)

/-! ## White space -/

/-- White space alone. -/
def IsBlank (gap : List Char) : Prop := ∀ c ∈ gap, isSpace c = true

theorem isBlank_nil : IsBlank [] := by simp [IsBlank]

theorem isBlank_space : IsBlank [' '] := by simp [IsBlank, isSpace]

theorem isBlank_newLine (level : Nat) : IsBlank (newLine level) := by
  simp [IsBlank, newLine, isSpace]

variable {gap text rest : List Char}

theorem skipSpace_append (h : IsBlank gap) (cs : List Char) :
    skipSpace (gap ++ cs) = skipSpace cs := List.dropWhile_append_of_pos h

theorem skipSpace_cons {c : Char} (h : isSpace c = false) (cs : List Char) :
    skipSpace (c :: cs) = c :: cs := by
  simp [skipSpace, h]

@[simp] theorem skipSpace_skipSpace (cs : List Char) : skipSpace (skipSpace cs) = skipSpace cs :=
  List.dropWhile_idempotent _ cs

/-! ## Strings -/

/-- A control character is read from its four digits, of which the upper two are zeros. -/
theorem unitValue?_control {n : Nat} (h : n < 32) :
    unitValue? '0' '0' (hexDigit (n / 16)) (hexDigit (n % 16)) = some n := by
  decide +revert

theorem ofCode_toNat {c : Char} (h : c.toNat < 32) : Piece.ofCode c.toNat = .char c := by
  rw [Piece.ofCode, if_neg (by omega), Char.ofNat_toNat]

/-- A letter behind a backslash is read as the character that it is short for. -/
theorem readPieces_short {letter c : Char} (hletter : letter ≠ 'u') (h : shortEscape? letter = some c)
    (cs : List Char) :
    readPieces ('\\' :: letter :: cs) = (readPieces cs).map fun r => (.char c :: r.1, r.2) := by
  rw [readPieces, h, Option.map_eq_bind]
  · rfl
  · rintro _ _ _ _ _ rfl
    exact absurd rfl hletter

/-- However a character is written, it is read back. -/
theorem readPieces_escape (c : Char) (cs : List Char) :
    readPieces (escape c ++ cs) = (readPieces cs).map fun r => (.char c :: r.1, r.2) := by
  unfold escape
  split_ifs with hquote hbackslash hline hreturn htab hback hform hcontrol
  · exact readPieces_short (by decide) (by rw [hquote]; rfl) cs
  · exact readPieces_short (by decide) (by rw [hbackslash]; rfl) cs
  · exact readPieces_short (by decide) (by rw [hline]; rfl) cs
  · exact readPieces_short (by decide) (by rw [hreturn]; rfl) cs
  · exact readPieces_short (by decide) (by rw [htab]; rfl) cs
  · exact readPieces_short (by decide) (by rw [← Char.ofNat_toNat c, hback]; rfl) cs
  · exact readPieces_short (by decide) (by rw [← Char.ofNat_toNat c, hform]; rfl) cs
  · simp [readPieces, unitValue?_control hcontrol, ofCode_toNat hcontrol, Option.map_eq_bind]
  · simp [readPieces, hbackslash, hcontrol, Option.map_eq_bind]

/-- The text of a string is read up to its closing quote. -/
theorem readLiteral_append (s : String) (cs : List Char) :
    readLiteral (s.toList.flatMap escape ++ '"' :: cs) = some (some s, cs) := by
  have hpieces : ∀ chars : List Char, readPieces (chars.flatMap escape ++ '"' :: cs) =
      some (chars.map .char, cs) := by
    intro chars
    induction chars with
    | nil => rfl
    | cons c chars ih =>
      rw [List.flatMap_cons, List.append_assoc, readPieces_escape, ih]
      rfl
  have hchars : ∀ chars : List Char, charsOfPieces (chars.map .char) = some chars := by
    intro chars
    induction chars with
    | nil => rfl
    | cons c chars ih => rw [List.map_cons, charsOfPieces, ih, Option.map_some]
  rw [readLiteral, hpieces, Option.map_some, hchars, Option.map_some, String.ofList_toList]

theorem writeString_append (s : String) (cs : List Char) :
    writeString s ++ cs = '"' :: (s.toList.flatMap escape ++ '"' :: cs) := by
  rw [writeString, List.cons_append, List.append_assoc, List.singleton_append]

/-! ## What texts are read as -/

/-- A text is read as something, with as much fuel as it has characters, whatever follows that does
not go on with a number. -/
def Reads {α : Type} (reader : Nat → List Char → Option (α × List Char)) (text : List Char)
    (a : α) : Prop :=
  ∀ fuel rest, text.length ≤ fuel → Ends rest → reader fuel (text ++ rest) = some (a, rest)

/-- What separates or closes values cannot go on with a number. -/
theorem ends_append (h : IsBlank gap) {c : Char} (hc : c = ',' ∨ c = ']' ∨ c = '\x7d') (cs : List Char) :
    Ends (gap ++ c :: cs) := by
  cases gap with
  | nil =>
    rintro _ ⟨⟩
    rcases hc with rfl | rfl | rfl <;> decide
  | cons space gap =>
    rintro _ ⟨⟩
    have hspace : isSpace space = true := h space List.mem_cons_self
    simp only [isSpace, Bool.or_eq_true, decide_eq_true_eq] at hspace
    rcases hspace with ((rfl | rfl) | rfl) | rfl <;> decide

/-- Spaces may stand before anything that is read. -/
theorem readValue_skipSpace (fuel : Nat) (cs : List Char) :
    readValue fuel (skipSpace cs) = readValue fuel cs := by
  cases fuel with
  | zero => rfl
  | succ fuel => rw [readValue, readValue, skipSpace_skipSpace]

theorem readItems_skipSpace (fuel : Nat) (cs : List Char) :
    readItems fuel (skipSpace cs) = readItems fuel cs := by
  cases fuel with
  | zero => rfl
  | succ fuel => rw [readItems, readItems, readValue_skipSpace]

theorem readEntries_skipSpace (fuel : Nat) (cs : List Char) :
    readEntries fuel (skipSpace cs) = readEntries fuel cs := by
  cases fuel with
  | zero => rfl
  | succ fuel => rw [readEntries, readEntries, skipSpace_skipSpace]

/-- White space in front is no matter to a reader that skips it. -/
theorem Reads.after {α : Type} {reader : Nat → List Char → Option (α × List Char)} {a : α}
    (h : Reads reader text a) (hreader : ∀ fuel cs, reader fuel (skipSpace cs) = reader fuel cs)
    (hgap : IsBlank gap) : Reads reader (gap ++ text) a := by
  intro fuel rest enough hrest
  rw [List.length_append] at enough
  rw [List.append_assoc, ← hreader, skipSpace_append hgap, hreader]
  exact h fuel rest (by omega) hrest

/-- A reader that spends a unit of fuel has one left for each character after the first. -/
theorem reads_cons {α : Type} {reader : Nat → List Char → Option (α × List Char)} {a : α} {c : Char}
    (h : ∀ fuel rest, text.length ≤ fuel → Ends rest →
      reader (fuel + 1) (c :: (text ++ rest)) = some (a, rest)) : Reads reader (c :: text) a := by
  intro fuel rest enough hrest
  cases fuel with
  | zero => cases enough
  | succ fuel => exact h fuel rest (Nat.le_of_succ_le_succ enough) hrest

theorem reads_null : Reads readValue ['n', 'u', 'l', 'l'] .null :=
  reads_cons fun _ _ _ _ => rfl

theorem reads_bool (b : Bool) : Reads readValue (writeBool b) (.bool b) := by
  cases b with
  | false => exact reads_cons fun _ _ _ _ => rfl
  | true => exact reads_cons fun _ _ _ _ => rfl

theorem reads_string (s : String) : Reads readValue (writeString s) (.string (some s)) := by
  refine reads_cons fun fuel rest _ _ => ?_
  rw [List.append_assoc]
  have hliteral := readLiteral_append s rest
  simp only [readValue, skipSpace_cons (c := '"') (by decide), List.singleton_append, hliteral,
    Option.map_some]

/-- This is the one kind of value whose end is told by what follows. -/
theorem reads_numeral {p : Numeral} (hp : p.Proper) : Reads readValue p.chars (.number p.number) := by
  obtain ⟨c, more, hchars, hc⟩ := hp.exists_chars
  have hread : ∀ rest, Ends rest → readNumber (p.chars ++ rest) = some (p.number, rest) :=
    fun _ => Numeral.readNumber_append hp
  rw [hchars] at hread ⊢
  refine reads_cons fun fuel rest _ hrest => ?_
  have hother : ∀ c' : Char, c' ≠ '-' → c'.isDigit = false → c ≠ c' := by
    rintro c' hminus hdigit rfl
    simp [hminus, hdigit] at hc
  rw [readValue, skipSpace_cons]
  · split
    -- no value of another kind starts with a minus sign or a digit
    iterate 6 next heq => exact absurd (List.cons.inj heq).1 (hother _ (by decide) (by decide))
    · rw [← List.cons_append, hread rest hrest, Option.map_some]
  · simp [isSpace, hother]

/-- The last item is read with the bracket that closes the array. -/
theorem Reads.lastItem {v : Value} (h : Reads readValue text v) (hgap : IsBlank gap) :
    Reads readItems (text ++ (gap ++ [']'])) [v] := by
  intro fuel rest enough hrest
  have hends : Ends (gap ++ ']' :: rest) := ends_append hgap (by decide) rest
  cases fuel with
  | zero => simp at enough
  | succ fuel =>
    simp only [List.length_append, List.length_singleton] at enough
    rw [List.append_assoc, List.append_assoc, readItems, List.singleton_append,
      h fuel _ (by omega) hends, Option.bind_eq_bind, Option.bind_some]
    simp only [skipSpace_append hgap, skipSpace_cons (c := ']') (by decide)]
    rfl

/-- An item is read with its comma, before the items behind it. -/
theorem Reads.item {v : Value} {vs : List Value} {more : List Char} (h : Reads readValue text v)
    (hgap : IsBlank gap) (hmore : Reads readItems more vs) :
    Reads readItems (text ++ (gap ++ ',' :: more)) (v :: vs) := by
  intro fuel rest enough hrest
  have hends : Ends (gap ++ ',' :: (more ++ rest)) := ends_append hgap (by decide) _
  cases fuel with
  | zero => simp at enough
  | succ fuel =>
    simp only [List.length_append, List.length_cons] at enough
    rw [List.append_assoc, List.append_assoc, readItems, List.cons_append,
      h fuel _ (by omega) hends, Option.bind_eq_bind, Option.bind_some]
    simp only [skipSpace_append hgap, skipSpace_cons (c := ',') (by decide),
      hmore fuel rest (by omega) hrest]
    rfl

theorem reads_nil : Reads readValue ['[', ']'] (.array []) :=
  reads_cons fun _ _ _ _ => rfl

theorem readItems_bracket (fuel : Nat) (cs : List Char) : readItems fuel (']' :: cs) = none := by
  match fuel with
  | 0 => rfl
  | 1 => rfl
  | _ + 2 => rfl

/-- An array that is not empty is read as its items are. -/
theorem Reads.array {vs : List Value} (h : Reads readItems text vs) :
    Reads readValue ('[' :: text) (.array vs) := by
  refine reads_cons fun fuel rest enough hrest => ?_
  have hitems := h fuel rest enough hrest
  rw [← readItems_skipSpace] at hitems
  simp only [readValue, skipSpace_cons (c := '[') (by decide)]
  split
  · next heq =>
    rw [heq, readItems_bracket] at hitems
    cases hitems
  · rw [hitems, Option.map_some]

/-- The last entry is read with the brace that closes the object. -/
theorem Reads.lastEntry {v : Value} (h : Reads readValue text v) (key : String) (hgap : IsBlank gap) :
    Reads readEntries (writeString key ++ ':' :: (text ++ (gap ++ ['\x7d']))) [(some key, v)] := by
  rw [writeString_append]
  refine reads_cons fun fuel rest enough hrest => ?_
  have hends : Ends (gap ++ '\x7d' :: rest) := ends_append hgap (by decide) rest
  simp only [List.length_append, List.length_cons] at enough
  simp only [List.append_assoc, List.cons_append, List.nil_append, readEntries,
    skipSpace_cons (c := '"') (by decide), readLiteral_append, Option.bind_eq_bind, Option.bind_some,
    skipSpace_cons (c := ':') (by decide), h fuel _ (by omega) hends, skipSpace_append hgap,
    skipSpace_cons (c := '\x7d') (by decide)]
  rfl

/-- An entry is read with its comma, before the entries behind it. -/
theorem Reads.entry {v : Value} {entries : List (Literal × Value)} {more : List Char}
    (h : Reads readValue text v) (key : String) (hgap : IsBlank gap) (hmore : Reads readEntries more entries) :
    Reads readEntries (writeString key ++ ':' :: (text ++ (gap ++ ',' :: more)))
      ((some key, v) :: entries) := by
  rw [writeString_append]
  refine reads_cons fun fuel rest enough hrest => ?_
  have hends : Ends (gap ++ ',' :: (more ++ rest)) := ends_append hgap (by decide) _
  simp only [List.length_append, List.length_cons] at enough
  simp only [List.append_assoc, List.cons_append, readEntries, skipSpace_cons (c := '"') (by decide),
    readLiteral_append, Option.bind_eq_bind, Option.bind_some, skipSpace_cons (c := ':') (by decide),
    h fuel _ (by omega) hends, skipSpace_append hgap, skipSpace_cons (c := ',') (by decide),
    hmore fuel rest (by omega) hrest]
  rfl

theorem reads_emptyObject : Reads readValue ['\x7b', '\x7d'] (.object []) :=
  reads_cons fun _ _ _ _ => rfl

theorem readEntries_brace (fuel : Nat) (cs : List Char) : readEntries fuel ('\x7d' :: cs) = none := by
  cases fuel with
  | zero => rfl
  | succ fuel => rfl

/-- An object that is not empty is read as its entries are. -/
theorem Reads.object {entries : List (Literal × Value)} (h : Reads readEntries text entries) :
    Reads readValue ('\x7b' :: text) (.object entries) := by
  refine reads_cons fun fuel rest enough hrest => ?_
  have hentries := h fuel rest enough hrest
  rw [← readEntries_skipSpace] at hentries
  simp only [readValue, skipSpace_cons (c := '\x7b') (by decide)]
  split
  · next heq =>
    rw [heq, readEntries_brace] at hentries
    cases hentries
  · rw [hentries, Option.map_some]

/-- A text that is read as a value says this value. -/
theorem Reads.ofChars? {v : Value} (h : Reads readValue text v) : Value.ofChars? text = some v := by
  have hread := h (3 * text.length + 3) [] (by omega) (by simp [Ends])
  rw [List.append_nil] at hread
  rw [Value.ofChars?, hread]
  rfl

/-! ## Documents -/

mutual

/-- The value that a document writes. -/
def Document.toValue : Document → Value
  | .null => .null
  | .bool b => .bool b
  | .integer n => .number (Numeral.ofInteger n).number
  | .double x => if x.isFinite then .number (Numeral.ofDouble x).number else .null
  | .string s => .string (some s)
  | .array items => .array (itemValues items)
  | .object entries => .object (entryValues entries)

/-- The values that the items of an array write. -/
def itemValues : List Document → List Value
  | [] => []
  | item :: more => item.toValue :: itemValues more

/-- The values that the entries of an object write. -/
def entryValues : List (String × Document) → List (Literal × Value)
  | [] => []
  | (key, value) :: more => (some key, value.toValue) :: entryValues more

end

theorem reads_integer (n : Int) : Reads readValue (writeInteger n) (Document.integer n).toValue := by
  rw [← Numeral.chars_ofInteger]
  exact reads_numeral (Numeral.proper_ofInteger n)

/-- A number that is not finite is written, and read, as `null`. -/
theorem reads_double (x : Double) : Reads readValue (writeDouble x) (Document.double x).toValue := by
  rw [writeDouble, Document.toValue]
  by_cases finite : x.isFinite = true
  · rw [if_pos finite, if_pos finite, ← Numeral.chars_ofDouble]
    exact reads_numeral (Numeral.proper_ofDouble finite)
  · rw [if_neg finite, if_neg finite]
    exact reads_null

mutual

/-- A document in one line is read back, by recursion with its items and entries. -/
theorem Document.reads_chars : (d : Document) → Reads readValue d.chars d.toValue
  | .null => reads_null
  | .bool b => reads_bool b
  | .integer n => reads_integer n
  | .double x => reads_double x
  | .string s => reads_string s
  | .array [] => reads_nil
  | .array (item :: more) => (reads_itemChars (item :: more) (by simp)).array
  | .object [] => reads_emptyObject
  | .object (entry :: more) => (reads_entryChars (entry :: more) (by simp)).object

theorem reads_itemChars : (items : List Document) → items ≠ [] →
    Reads readItems (itemChars items ++ [']']) (itemValues items)
  | [item], _ => item.reads_chars.lastItem isBlank_nil
  | item :: next :: more, _ => by
    have hmore := reads_itemChars (next :: more) (by simp)
    simpa [itemChars, itemValues] using item.reads_chars.item isBlank_nil hmore

theorem reads_entryChars : (entries : List (String × Document)) → entries ≠ [] →
    Reads readEntries (entryChars entries ++ ['\x7d']) (entryValues entries)
  | [(key, value)], _ => by
    simpa [entryChars, entryValues] using value.reads_chars.lastEntry key isBlank_nil
  | (key, value) :: next :: more, _ => by
    have hmore := reads_entryChars (next :: more) (by simp)
    simpa [entryChars, entryValues] using value.reads_chars.entry key isBlank_nil hmore

end

mutual

/-- A document over many lines is read back at any depth of indentation. -/
theorem Document.reads_prettyChars (level : Nat) :
    (d : Document) → Reads readValue (d.prettyChars level) d.toValue
  | .null => reads_null
  | .bool b => reads_bool b
  | .integer n => reads_integer n
  | .double x => reads_double x
  | .string s => reads_string s
  | .array [] => reads_nil
  | .array (item :: more) => by
    have hitems := reads_prettyItems (level + 1) (isBlank_newLine level) (item :: more) (by simp)
    simpa [Document.prettyChars, Document.toValue] using hitems.array
  | .object [] => reads_emptyObject
  | .object (entry :: more) => by
    have hentries := reads_prettyEntries (level + 1) (isBlank_newLine level) (entry :: more) (by simp)
    simpa [Document.prettyChars, Document.toValue] using hentries.object

theorem reads_prettyItems (level : Nat) {closing : List Char} (hclosing : IsBlank closing) :
    (items : List Document) → items ≠ [] →
      Reads readItems (prettyItems level items ++ (closing ++ [']'])) (itemValues items)
  | [item], _ => by
    have hitem := (item.reads_prettyChars level).after readValue_skipSpace (isBlank_newLine level)
    simpa [prettyItems, itemValues] using hitem.lastItem hclosing
  | item :: next :: more, _ => by
    have hitem := (item.reads_prettyChars level).after readValue_skipSpace (isBlank_newLine level)
    have hmore := reads_prettyItems level hclosing (next :: more) (by simp)
    simpa [prettyItems, itemValues] using hitem.item isBlank_nil hmore

theorem reads_prettyEntries (level : Nat) {closing : List Char} (hclosing : IsBlank closing) :
    (entries : List (String × Document)) → entries ≠ [] →
      Reads readEntries (prettyEntries level entries ++ (closing ++ ['\x7d'])) (entryValues entries)
  | [(key, value)], _ => by
    have hvalue := (value.reads_prettyChars level).after readValue_skipSpace isBlank_space
    have hentry := (hvalue.lastEntry key hclosing).after readEntries_skipSpace (isBlank_newLine level)
    simpa [prettyEntries, entryValues] using hentry
  | (key, value) :: next :: more, _ => by
    have hvalue := (value.reads_prettyChars level).after readValue_skipSpace isBlank_space
    have hmore := reads_prettyEntries level hclosing (next :: more) (by simp)
    have hentry := (hvalue.entry key isBlank_nil hmore).after readEntries_skipSpace (isBlank_newLine level)
    simpa [prettyEntries, entryValues] using hentry

end

/-- A document in one line says the value it was written for. -/
theorem Document.ofString?_compact (d : Document) : Value.ofString? d.compact = some d.toValue := by
  rw [Value.ofString?, compact, String.toList_ofList]
  exact d.reads_chars.ofChars?

/-- So does one with an entry on each line. -/
theorem Document.ofString?_pretty (d : Document) : Value.ofString? d.pretty = some d.toValue := by
  rw [Value.ofString?, pretty, String.toList_ofList]
  exact (d.reads_prettyChars 0).ofChars?

/-! ## Values of documents -/

theorem asText?_toValue (s : String) : (Document.string s).toValue.asText? = some s := rfl

theorem asBool?_toValue (b : Bool) : (Document.bool b).toValue.asBool? = some b := rfl

/-- An integer of at most 64 bits is taken for a word again. -/
theorem asWord?_toValue {n : Nat} (h : n < 2 ^ 64) : (Document.integer n).toValue.asWord? = some n := by
  have hsign : ¬(n : Int) < 0 := by omega
  have hbound : n < 0x10000000000000000 := h
  simp [Document.toValue, Numeral.number_ofInteger, Value.asWord?, Value.asNat?, hsign, hbound]

/-- The shortest digits of a finite number give back all its bits. -/
theorem asDouble?_toValue {x : Double} (finite : x.isFinite = true) :
    (Document.double x).toValue.asDouble? = some x := by
  rw [Document.toValue, if_pos finite]
  exact Numeral.toDouble?_ofDouble finite

end SignHash.Json
