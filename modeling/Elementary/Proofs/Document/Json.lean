import Elementary.Proofs.Computation
import Elementary.Proofs.Document.JsonToken

/-!
# JSON read back

A document without inexact numbers is written in JSON and read again. What comes back is the
document with the keys of its maps as texts and its records as maps, provided that the keys of each
map stay different as texts.

## Main definitions

* `Json.plain`: a document as JSON holds it.
* `Json.IsExact`: the documents that JSON holds exactly.

## Main results

* `Json.readValue_writeAt`: a value at the head of a text.
* `Json.read_write`: a whole document.
-/

namespace Elementary.Json

open Literal

variable {cs rest rest' : List Char} {fuel level : Nat} {d : Document}

/-! ### Documents as JSON holds them -/

mutual

/-- A document **as JSON holds it**: keys are texts, and records are maps. -/
def plain : Document → Document
  | .list items => .list (plainItems items)
  | .map entries | .record _ entries => .map (plainEntries entries)
  | d => d

/-- The elements of a list as JSON holds them. -/
def plainItems : List Document → List Document
  | [] => []
  | d :: rest => plain d :: plainItems rest

/-- The entries of a map as JSON holds them. -/
def plainEntries : List (Document × Document) → List (Document × Document)
  | [] => []
  | (k, v) :: rest => (.text (String.ofList (key k)), plain v) :: plainEntries rest

end

mutual

/-- A document that JSON **holds exactly**: it has no inexact numbers, and the keys of its maps are
different texts. -/
def IsExact : Document → Prop
  | .real _ => False
  | .list items => AllExact items
  | .map entries | .record _ entries =>
    (entries.map fun entry => key entry.1).Nodup ∧ EntriesExact entries
  | _ => True

/-- The same for the elements of a list. -/
def AllExact : List Document → Prop
  | [] => True
  | d :: rest => IsExact d ∧ AllExact rest

/-- The same for the values of a map. -/
def EntriesExact : List (Document × Document) → Prop
  | [] => True
  | (_, v) :: rest => IsExact v ∧ EntriesExact rest

end

theorem plain_text (s : String) : plain (.text s) = .text s := rfl

theorem plain_integer (n : Int) : plain (.integer n) = .integer n := rfl

theorem plain_map (es : List (Document × Document)) :
    plain (.map es) = .map (plainEntries es) := rfl

theorem plainEntries_nil : plainEntries [] = [] := rfl

theorem key_text (s : String) : key (.text s) = s.toList := rfl

theorem key_integer (n : Int) : key (.integer n) = (toString n).toList := rfl

theorem plainItems_eq_map (ds : List Document) : plainItems ds = ds.map plain := by
  induction ds with
  | nil => rfl
  | cons d ds ih => rw [plainItems, ih, List.map_cons]

theorem allExact_iff {ds : List Document} : AllExact ds ↔ ∀ d ∈ ds, IsExact d := by
  induction ds with
  | nil => simp [AllExact]
  | cons d ds ih => rw [AllExact, ih, List.forall_mem_cons]

/-! ### White space and the heads of values -/

@[simp] theorem skipBlank_newLine (level : Nat) (rest : List Char) :
    skipBlank (newLine level ++ rest) = skipBlank rest := by
  have hspaces : ∀ k, skipBlank (List.replicate k ' ' ++ rest) = skipBlank rest := by
    intro k
    induction k with
    | zero => rfl
    | succ k ih => exact ih
  exact hspaces (4 * level)

/-- A character with which a value may start. -/
def StartsValue (c : Char) : Prop := isBlank c = false ∧ c ≠ ']' ∧ c ≠ '}'

instance (c : Char) : Decidable (StartsValue c) :=
  inferInstanceAs (Decidable (isBlank c = false ∧ c ≠ ']' ∧ c ≠ '}'))

theorem startsValue_of_isDigit {c : Char} (hc : c.isDigit = true) : StartsValue c := by
  have hne : c ≠ ' ' ∧ c ≠ '\t' ∧ c ≠ '\n' ∧ c ≠ '\r' ∧ c ≠ ']' ∧ c ≠ '}' := by
    refine ⟨?_, ?_, ?_, ?_, ?_, ?_⟩ <;> rintro rfl <;> exact absurd hc (by decide)
  obtain ⟨hspace, htab, hnew, hreturn, hbracket, hbrace⟩ := hne
  exact ⟨by simp [isBlank, hspace, htab, hnew, hreturn], hbracket, hbrace⟩

/-- A value is written with a first character that starts values. -/
theorem exists_writeAt_eq_cons (hd : IsExact d) (level : Nat) :
    ∃ c cs, writeAt level d = c :: cs ∧ StartsValue c := by
  cases d with
  | null => exact ⟨'n', _, rfl, by decide⟩
  | truth b =>
    cases b with
    | false => exact ⟨'f', _, rfl, by decide⟩
    | true => exact ⟨'t', _, rfl, by decide⟩
  | integer n =>
    obtain ⟨c, cs, hcs, rfl | hdigit⟩ := exists_toString_eq_cons n
    · exact ⟨'-', cs, hcs, by decide⟩
    · exact ⟨c, cs, hcs, startsValue_of_isDigit hdigit⟩
  | real x => exact hd.elim
  | text s => exact ⟨'"', _, rfl, by decide⟩
  | list items => cases items <;> exact ⟨'[', _, rfl, by decide⟩
  | map entries => cases entries <;> exact ⟨'{', _, rfl, by decide⟩
  | record tag entries => cases entries <;> exact ⟨'{', _, rfl, by decide⟩

/-- Nothing is skipped in front of a value. -/
theorem skipBlank_writeAt (hd : IsExact d) (level : Nat) (rest : List Char) :
    skipBlank (writeAt level d ++ rest) = writeAt level d ++ rest := by
  obtain ⟨c, cs, hcs, hblank, -⟩ := exists_writeAt_eq_cons hd level
  rw [hcs, List.cons_append, skipBlank, hblank]
  rfl

/-! ### Single steps of the reader -/

/-- A text that was written is read behind its opening quote. -/
theorem exists_string_append_eq_cons (s rest : List Char) :
    ∃ cs, string s ++ rest = '"' :: cs ∧ readString (cs.length + 1) cs = some (s, rest) := by
  have hlength := length_le_flatMap_escaped s
  refine ⟨s.flatMap escaped ++ '"' :: rest, by simp [string], readString_string ?_ rest⟩
  simp only [List.length_append, List.length_cons]
  omega

theorem readValue_string (s : List Char) (fuel : Nat) (rest : List Char) :
    readValue (fuel + 1) (string s ++ rest) = some (.text (String.ofList s), rest) := by
  obtain ⟨cs, hlist, hread⟩ := exists_string_append_eq_cons s rest
  rw [hlist, readValue.eq_def]
  simp only
  rw [hread]
  rfl

theorem readValue_atom {c : Char} (hquote : c ≠ '"') (hbracket : c ≠ '[') (hbrace : c ≠ '{') :
    readValue (fuel + 1) (c :: cs) = readAtom (c :: cs) := by
  rw [readValue.eq_def]
  split
  · next h => cases h
  · next h => exact absurd (List.cons.inj h).1 hquote
  · next h => exact absurd (List.cons.inj h).1 hbracket
  · next h => exact absurd (List.cons.inj h).1 hbrace
  · rfl

theorem readValue_list {c : Char} {items : List Document} (hskip : skipBlank cs = c :: rest)
    (hc : c ≠ ']') (hitems : readItems fuel (c :: rest) = some (items, rest')) :
    readValue (fuel + 1) ('[' :: cs) = some (.list items, rest') := by
  rw [readValue.eq_def]
  simp only [hskip]
  split
  · next h => exact absurd (List.cons.inj h).1 hc
  · rw [hitems]
    rfl

theorem readValue_map {c : Char} {entries : List (Document × Document)}
    (hskip : skipBlank cs = c :: rest) (hc : c ≠ '}')
    (hentries : readEntries fuel (c :: rest) = some (entries, rest')) :
    readValue (fuel + 1) ('{' :: cs) = some (.map (Document.entriesOf entries), rest') := by
  rw [readValue.eq_def]
  simp only [hskip]
  split
  · next h => exact absurd (List.cons.inj h).1 hc
  · rw [hentries]
    rfl

theorem readItems_last (hd : readValue fuel cs = some (d, rest))
    (hskip : skipBlank rest = ']' :: rest') : readItems (fuel + 1) cs = some ([d], rest') := by
  rw [readItems, hd, Option.bind_eq_bind, Option.bind_some]
  simp only [hskip]
  rfl

theorem readItems_cons {items : List Document} {rest'' : List Char}
    (hd : readValue fuel cs = some (d, rest)) (hskip : skipBlank rest = ',' :: rest')
    (hitems : readItems fuel (skipBlank rest') = some (items, rest'')) :
    readItems (fuel + 1) cs = some (d :: items, rest'') := by
  rw [readItems, hd, Option.bind_eq_bind, Option.bind_some]
  simp only [hskip, hitems, Option.bind_eq_bind, Option.bind_some]
  rfl

/-- **An entry** is read up to its value; the sign behind it says whether others follow. -/
theorem readEntries_entry {k : List Char} {v : Document}
    (hv : readValue fuel (skipBlank cs) = some (v, rest)) :
    readEntries (fuel + 1) (string k ++ ':' :: cs) =
      match skipBlank rest with
      | ',' :: rest => do
        let (entries, rest) ← readEntries fuel (skipBlank rest)
        return ((.text (String.ofList k), v) :: entries, rest)
      | '}' :: rest => some ([(.text (String.ofList k), v)], rest)
      | _ => none := by
  obtain ⟨after, hlist, hread⟩ := exists_string_append_eq_cons k (':' :: cs)
  have hcolon : skipBlank (':' :: cs) = ':' :: cs := rfl
  rw [hlist, readEntries.eq_def]
  simp only
  rw [hread]
  simp only [Option.bind_eq_bind, Option.bind_some, hcolon, hv]
  rfl

theorem readEntries_last {k : List Char} {v : Document}
    (hv : readValue fuel (skipBlank cs) = some (v, rest)) (hskip : skipBlank rest = '}' :: rest') :
    readEntries (fuel + 1) (string k ++ ':' :: cs) =
      some ([(.text (String.ofList k), v)], rest') := by
  rw [readEntries_entry hv]
  simp only [hskip]

theorem readEntries_cons {k : List Char} {v : Document} {entries : List (Document × Document)}
    {rest'' : List Char} (hv : readValue fuel (skipBlank cs) = some (v, rest))
    (hskip : skipBlank rest = ',' :: rest')
    (hentries : readEntries fuel (skipBlank rest') = some (entries, rest'')) :
    readEntries (fuel + 1) (string k ++ ':' :: cs) =
      some ((.text (String.ofList k), v) :: entries, rest'') := by
  rw [readEntries_entry hv]
  simp only [hskip, hentries]
  rfl

/-! ### Maps with different keys -/

theorem insert_eq_append {k v : Document} {es : List (Document × Document)}
    (h : ∀ e ∈ es, Document.sameKey e.1 k = false) : Document.insert k v es = es ++ [(k, v)] := by
  induction es with
  | nil => rfl
  | cons e es ih =>
    obtain ⟨k', v'⟩ := e
    have hhead : Document.sameKey k' k = false := h (k', v') List.mem_cons_self
    rw [Document.insert, hhead, if_neg (by decide),
      ih fun e he => h e (List.mem_cons_of_mem _ he), List.cons_append]

/-- **A map with different keys** is read as it was written. -/
theorem entriesOf_eq_self {es : List (Document × Document)}
    (h : es.Pairwise fun a b => Document.sameKey a.1 b.1 = false) :
    Document.entriesOf es = es :=
  @foldl_eq_append _ _ _ (fun hnew => insert_eq_append hnew) es [] h

theorem plainEntries_pairwise {es : List (Document × Document)}
    (h : (es.map fun entry => key entry.1).Nodup) :
    (plainEntries es).Pairwise fun a b => Document.sameKey a.1 b.1 = false := by
  induction es with
  | nil => exact List.Pairwise.nil
  | cons e es ih =>
    obtain ⟨k, v⟩ := e
    rw [List.map_cons, List.nodup_cons] at h
    have hmem : ∀ a ∈ plainEntries es, ∃ b ∈ es, a.1 = .text (String.ofList (key b.1)) := by
      intro a ha
      clear ih h
      induction es with
      | nil => cases ha
      | cons b es ih =>
        rcases List.mem_cons.mp ha with rfl | ha
        · exact ⟨b, List.mem_cons_self, rfl⟩
        · obtain ⟨b', hb', hkey⟩ := ih ha
          exact ⟨b', List.mem_cons_of_mem b hb', hkey⟩
    refine List.Pairwise.cons (fun a ha => ?_) (ih h.2)
    obtain ⟨b, hb, hkey⟩ := hmem a ha
    have hne : key k ≠ key b.1 := fun heq => h.1 (heq ▸ List.mem_map_of_mem hb)
    rw [hkey]
    exact beq_eq_false_iff_ne.mpr fun heq => hne (String.ofList_injective heq)

/-! ### Values -/

theorem EndsValue.nil : EndsValue [] := by
  rintro c ⟨⟩

theorem endsValue_writeItems (ds : List Document) (level : Nat) (rest : List Char) :
    EndsValue (writeItems level ds ++ rest) := by
  cases ds with
  | nil => rintro c ⟨⟩; exact Or.inr rfl
  | cons d ds => rintro c ⟨⟩; exact Or.inl rfl

theorem endsValue_writeEntries (es : List (Document × Document)) (level : Nat) (rest : List Char) :
    EndsValue (writeEntries level es ++ rest) := by
  cases es with
  | nil => rintro c ⟨⟩; exact Or.inr rfl
  | cons e es => rintro c ⟨⟩; exact Or.inl rfl

theorem writeAt_list_append (level : Nat) (d : Document) (ds : List Document) (rest : List Char) :
    writeAt level (.list (d :: ds)) ++ rest = '[' :: (newLine (level + 1) ++
      (writeAt (level + 1) d ++ (writeItems level ds ++ rest))) := by
  simp only [writeAt, List.cons_append, List.append_assoc]

theorem writeItems_append (level : Nat) (d : Document) (ds : List Document) (rest : List Char) :
    writeItems level (d :: ds) ++ rest = ',' :: (newLine (level + 1) ++
      (writeAt (level + 1) d ++ (writeItems level ds ++ rest))) := by
  simp only [writeItems, List.cons_append, List.append_assoc]

theorem writeMap_append (level : Nat) (k v : Document) (es : List (Document × Document))
    (rest : List Char) :
    writeMap level ((k, v) :: es) ++ rest = '{' :: (newLine (level + 1) ++ (string (key k) ++
      ':' :: (' ' :: (writeAt (level + 1) v ++ (writeEntries level es ++ rest))))) := by
  simp only [writeMap, List.cons_append, List.append_assoc]

theorem writeEntries_append (level : Nat) (k v : Document) (es : List (Document × Document))
    (rest : List Char) :
    writeEntries level ((k, v) :: es) ++ rest = ',' :: (newLine (level + 1) ++ (string (key k) ++
      ':' :: (' ' :: (writeAt (level + 1) v ++ (writeEntries level es ++ rest))))) := by
  simp only [writeEntries, List.cons_append, List.append_assoc]

theorem length_newLine_pos (level : Nat) : 0 < (newLine level).length := by
  simp [newLine]

theorem length_writeAt_pos (hd : IsExact d) (level : Nat) : 0 < (writeAt level d).length := by
  obtain ⟨c, cs, hcs, -⟩ := exists_writeAt_eq_cons hd level
  rw [hcs]
  exact Nat.succ_pos _

mutual

/-- **A value** is read back at the head of a text. The fuel is enough because every value takes
some place in the text. -/
theorem readValue_writeAt : ∀ (d : Document) {level fuel : Nat} {rest : List Char}, IsExact d →
    EndsValue rest → (writeAt level d).length ≤ fuel →
      readValue fuel (writeAt level d ++ rest) = some (plain d, rest)
  | d, level, 0, rest, hd, _, hfuel => by
    have hpos := length_writeAt_pos hd level
    omega
  | .null, level, fuel + 1, rest, hd, hrest, hfuel =>
    (readValue_atom (by decide) (by decide) (by decide)).trans (readAtom_null rest)
  | .truth b, level, fuel + 1, rest, hd, hrest, hfuel => by
    have hread := readAtom_truth b rest
    cases b with
    | false => exact (readValue_atom (by decide) (by decide) (by decide)).trans hread
    | true => exact (readValue_atom (by decide) (by decide) (by decide)).trans hread
  | .integer n, level, fuel + 1, rest, hd, hrest, hfuel => by
    have hread := readAtom_integer n hrest
    obtain ⟨c, cs, hcs, hc⟩ := exists_toString_eq_cons n
    have hne : c ≠ '"' ∧ c ≠ '[' ∧ c ≠ '{' := by
      refine ⟨?_, ?_, ?_⟩ <;> rintro rfl <;> exact absurd hc (by decide)
    rw [hcs] at hread
    rw [writeAt, hcs]
    exact (readValue_atom hne.1 hne.2.1 hne.2.2).trans hread
  | .real x, level, fuel + 1, rest, hd, hrest, hfuel => hd.elim
  | .text s, level, fuel + 1, rest, hd, hrest, hfuel => by
    have hread := readValue_string s.toList fuel rest
    rwa [String.ofList_toList] at hread
  | .list [], level, fuel + 1, rest, hd, hrest, hfuel => rfl
  | .list (d :: ds), level, fuel + 1, rest, hd, hrest, hfuel => by
    have hpos := length_writeAt_pos hd.1 (level + 1)
    simp only [writeAt, List.cons_append, List.length_cons, List.length_append] at hfuel
    obtain ⟨fuel, rfl⟩ := Nat.exists_eq_add_one_of_ne_zero (show fuel ≠ 0 by omega)
    have hvalue := readValue_writeAt d hd.1 (endsValue_writeItems ds level rest)
      (show (writeAt (level + 1) d).length ≤ fuel by
        have := length_newLine_pos (level + 1)
        omega)
    have hitems := readItems_writeItems ds hd.2 (show (writeItems level ds).length ≤ fuel by omega)
      hvalue
    obtain ⟨c, cs, hcs, hstart⟩ := exists_writeAt_eq_cons hd.1 (level + 1)
    have hskip : skipBlank (newLine (level + 1) ++
        (writeAt (level + 1) d ++ (writeItems level ds ++ rest))) =
          c :: (cs ++ (writeItems level ds ++ rest)) := by
      rw [skipBlank_newLine, skipBlank_writeAt hd.1, hcs, List.cons_append]
    rw [hcs, List.cons_append] at hitems
    rw [writeAt_list_append]
    exact readValue_list hskip hstart.2.1 hitems
  | .map es, level, fuel + 1, rest, hd, hrest, hfuel => readMap_writeMap es hd hfuel
  | .record _ es, level, fuel + 1, rest, hd, hrest, hfuel => readMap_writeMap es hd hfuel

/-- The elements of a list behind one that is read. -/
theorem readItems_writeItems : ∀ (ds : List Document) {level fuel : Nat} {cs rest : List Char}
    {d : Document}, AllExact ds → (writeItems level ds).length ≤ fuel →
      readValue fuel cs = some (d, writeItems level ds ++ rest) →
        readItems (fuel + 1) cs = some (d :: plainItems ds, rest)
  | [], level, fuel, cs, rest, d, hds, hfuel, hd => by
    refine readItems_last hd ?_
    rw [writeItems, List.append_assoc, skipBlank_newLine]
    rfl
  | d' :: ds, level, fuel, cs, rest, d, hds, hfuel, hd => by
    have hpos := length_writeAt_pos hds.1 (level + 1)
    simp only [writeItems, List.cons_append, List.length_cons, List.length_append] at hfuel
    obtain ⟨fuel, rfl⟩ := Nat.exists_eq_add_one_of_ne_zero (show fuel ≠ 0 by omega)
    have hvalue := readValue_writeAt d' hds.1 (endsValue_writeItems ds level rest)
      (show (writeAt (level + 1) d').length ≤ fuel by omega)
    have hitems := readItems_writeItems ds hds.2
      (show (writeItems level ds).length ≤ fuel by omega) hvalue
    rw [writeItems_append] at hd
    refine readItems_cons hd rfl ?_
    rw [skipBlank_newLine, skipBlank_writeAt hds.1]
    exact hitems

/-- A map between braces. -/
theorem readMap_writeMap : ∀ (es : List (Document × Document)) {level fuel : Nat}
    {rest : List Char}, (es.map fun entry => key entry.1).Nodup ∧ EntriesExact es →
      (writeMap level es).length ≤ fuel + 1 →
        readValue (fuel + 1) (writeMap level es ++ rest) = some (.map (plainEntries es), rest)
  | [], level, fuel, rest, hes, hfuel => rfl
  | (k, v) :: es, level, fuel, rest, hes, hfuel => by
    obtain ⟨hnodup, hv, hes⟩ := hes
    have hpos := length_writeAt_pos hv (level + 1)
    simp only [writeMap, List.cons_append, List.length_cons, List.length_append] at hfuel
    obtain ⟨fuel, rfl⟩ := Nat.exists_eq_add_one_of_ne_zero (show fuel ≠ 0 by omega)
    have hvalue := readValue_writeAt v hv (endsValue_writeEntries es level rest)
      (show (writeAt (level + 1) v).length ≤ fuel by omega)
    rw [← skipBlank_writeAt hv] at hvalue
    have hentries : readEntries (fuel + 1) (string (key k) ++
        ':' :: (' ' :: (writeAt (level + 1) v ++ (writeEntries level es ++ rest)))) =
          some (plainEntries ((k, v) :: es), rest) :=
      readEntries_writeEntries es hes (show (writeEntries level es).length ≤ fuel by omega) hvalue
    have hskip : skipBlank (newLine (level + 1) ++ (string (key k) ++
        ':' :: (' ' :: (writeAt (level + 1) v ++ (writeEntries level es ++ rest))))) =
          string (key k) ++
            ':' :: (' ' :: (writeAt (level + 1) v ++ (writeEntries level es ++ rest))) :=
      skipBlank_newLine _ _
    rw [writeMap_append, ← entriesOf_eq_self (plainEntries_pairwise hnodup)]
    exact readValue_map hskip (by decide) hentries

/-- The entries of a map behind one that is read. -/
theorem readEntries_writeEntries : ∀ (es : List (Document × Document)) {level fuel : Nat}
    {k cs rest : List Char} {v : Document}, EntriesExact es →
      (writeEntries level es).length ≤ fuel →
        readValue fuel (skipBlank cs) = some (v, writeEntries level es ++ rest) →
          readEntries (fuel + 1) (string k ++ ':' :: cs) =
            some ((.text (String.ofList k), v) :: plainEntries es, rest)
  | [], level, fuel, k, cs, rest, v, hes, hfuel, hv => by
    refine readEntries_last hv ?_
    rw [writeEntries, List.append_assoc, skipBlank_newLine]
    rfl
  | (k', v') :: es, level, fuel, k, cs, rest, v, hes, hfuel, hv => by
    have hpos := length_writeAt_pos hes.1 (level + 1)
    simp only [writeEntries, List.cons_append, List.length_cons, List.length_append] at hfuel
    obtain ⟨fuel, rfl⟩ := Nat.exists_eq_add_one_of_ne_zero (show fuel ≠ 0 by omega)
    have hvalue := readValue_writeAt v' hes.1 (endsValue_writeEntries es level rest)
      (show (writeAt (level + 1) v').length ≤ fuel by omega)
    rw [← skipBlank_writeAt hes.1] at hvalue
    have hentries : readEntries (fuel + 1) (string (key k') ++
        ':' :: (' ' :: (writeAt (level + 1) v' ++ (writeEntries level es ++ rest)))) =
          some (plainEntries ((k', v') :: es), rest) :=
      readEntries_writeEntries es hes.2 (show (writeEntries level es).length ≤ fuel by omega) hvalue
    rw [writeEntries_append] at hv
    refine readEntries_cons hv rfl ?_
    rw [skipBlank_newLine]
    exact hentries

end

/-- **A document** that JSON holds exactly is read back as JSON holds it. -/
theorem read_write (hd : IsExact d) : read (write d) = .ok (plain d) := by
  have hlength : (write d).length = (writeAt 0 d).length := by
    rw [write, String.length_ofList]
  have hvalue : readValue (2 * (write d).length + 2) (writeAt 0 d ++ []) = some (plain d, []) :=
    readValue_writeAt d hd .nil (by omega)
  have hskip := skipBlank_writeAt hd 0 []
  rw [List.append_nil] at hvalue hskip
  rw [read, write, String.toList_ofList, hskip, ← write, hvalue]
  rfl

end Elementary.Json
