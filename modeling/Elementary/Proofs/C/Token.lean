import Mathlib.Data.List.Basic

/-!
# Tokens of C

A text in C is read as tokens: words, numbers and marks. Every token takes as many characters as
it can, blanks end a token, and a number goes on over letters, points, and the sign behind the
letter of an exponent. What a piece of text is read as therefore depends on the character that
follows it, and on nothing else that follows.

## Main definitions

* `Token`: the tokens.
* `lex`: the tokens of a text.
* `Lexes`: what a piece of text is read as in front of the characters that may follow it.

## Main results

* `Token.Spells.lexes`: a token, in front of what does not continue it.
* `Lexes.append`: two pieces next to each other.
* `Lexes.lex_eq`: a piece of text as a whole text.
-/

namespace Elementary.C

/-- A **token**, with the characters that it consists of. -/
inductive Token where
  | word (spelling : String)
  | number (spelling : String)
  | mark (spelling : String)
  deriving DecidableEq, Repr

namespace Token

/-- The characters of words: letters, digits and the underscore. -/
def isWordChar (c : Char) : Bool := c.isAlphanum || c == '_'

/-- The **marks** of more than one character, and the openings of comments. Each of them is a
shorter one and one more character. -/
def longMarks : List String :=
  ["->", "++", "--", "<<", ">>", "<=", ">=", "==", "!=", "&&", "||", "*=", "/=", "%=", "+=", "-=",
    "&=", "^=", "|=", "<<=", ">>=", "<:", ":>", "<%", "%>", "%:", "//", "/*"]

/-- The characters of marks. -/
def isMarkChar (c : Char) : Bool :=
  ['(', ')', '[', ']', '.', ',', '?', ':', ';', '~', '+', '-', '*', '/', '%', '<', '>', '=', '!',
    '&', '^', '|'].contains c

/-- Whether a sign behind a character belongs to the number: it is the sign of an exponent. -/
def takesSign (c : Char) : Bool := ['e', 'E', 'p', 'P'].contains c

/-- A token **with one more character**, if that continues it. -/
def extend? : Token → Char → Option Token
  | word s, c => if isWordChar c then some (word (s.push c)) else none
  | number s, c =>
    if isWordChar c || c == '.' then some (number (s.push c))
    else if (c == '+' || c == '-') && s.toList.getLast?.any takesSign then
      some (number (s.push c))
    else none
  | mark s, c =>
    if s == "." && c.isDigit then some (number (s.push c))
    else if longMarks.contains (s.push c) then some (mark (s.push c))
    else none

/-- What a character **begins** where no token goes on: a token, or nothing if it is blank. -/
def begin? (c : Char) : Option (Option Token) :=
  if c.isWhitespace then some none
  else if c.isDigit then some (some (number c.toString))
  else if isWordChar c then some (some (word c.toString))
  else if isMarkChar c then some (some (mark c.toString))
  else none

/-- A token **consists of the characters** of a text: the first one begins it, and every other one
continues it. -/
def Spells (s : String) (t : Token) : Prop :=
  ∃ c cs t₀, s.toList = c :: cs ∧ begin? c = some (some t₀) ∧ cs.foldlM extend? t₀ = some t

end Token

open Token (isWordChar)

/-- The tokens of a row of characters, the first of which may have begun before. -/
def lexFrom : Option Token → List Char → Option (List Token)
  | current, [] => some current.toList
  | current, c :: cs =>
    match current.bind (·.extend? c) with
    | some t => lexFrom (some t) cs
    | none => do
      let begun ← Token.begin? c
      return current.toList ++ (← lexFrom begun cs)

/-- The **tokens of a text**. -/
def lex (s : String) : Option (List Token) := lexFrom none s.toList

/-- What a **piece of text is read as**, in front of any text that begins with one of the
characters that may follow, or of none. -/
def Lexes (s : String) (ts : List Token) (mayFollow : Char → Prop) : Prop :=
  ∀ rest us, (∀ c ∈ rest.head?, mayFollow c) → lexFrom none rest = some us →
    lexFrom none (s.toList ++ rest) = some (ts ++ us)

variable {s s' : String} {t t₀ : Token} {ts ts' us : List Token} {cs rest : List Char}
  {mayFollow mayFollow' : Char → Prop}

/-- The characters that continue a token are read as part of it. -/
theorem lexFrom_append_of_foldlM (h : cs.foldlM Token.extend? t₀ = some t) (rest : List Char) :
    lexFrom (some t₀) (cs ++ rest) = lexFrom (some t) rest := by
  induction cs generalizing t₀ with
  | nil =>
    obtain rfl : t₀ = t := Option.some.inj h
    rfl
  | cons c cs ih =>
    obtain ⟨t₁, ht₁, h⟩ := Option.bind_eq_some_iff.mp h
    have hbind : (some t₀).bind (·.extend? c) = some t₁ := ht₁
    rw [List.cons_append, lexFrom, hbind]
    exact ih h

/-- A token ends in front of what does not continue it. -/
theorem lexFrom_of_extend?_eq_none (hstop : ∀ c ∈ rest.head?, t.extend? c = none)
    (h : lexFrom none rest = some us) : lexFrom (some t) rest = some (t :: us) := by
  cases rest with
  | nil =>
    obtain rfl : [] = us := Option.some.inj h
    rfl
  | cons c cs =>
    have hc : (some t).bind (·.extend? c) = none := hstop c rfl
    rw [lexFrom, hc]
    obtain ⟨begun, hbegun, h⟩ := Option.bind_eq_some_iff.mp h
    obtain ⟨vs, hvs, h⟩ := Option.bind_eq_some_iff.mp h
    obtain rfl : vs = us := Option.some.inj h
    simp [hbegun, hvs]

/-- **A token is read as such** in front of what does not continue it. -/
theorem Token.Spells.lexes (h : Spells s t) (hstop : ∀ c, mayFollow c → t.extend? c = none) :
    Lexes s [t] mayFollow := by
  obtain ⟨c, cs, t₀, hs, hbegin, hrest⟩ := h
  intro rest us hrest' hus
  have hread : lexFrom (some t₀) (cs ++ rest) = some (t :: us) := by
    rw [lexFrom_append_of_foldlM hrest]
    exact lexFrom_of_extend?_eq_none (fun c hc => hstop c (hrest' c hc)) hus
  rw [hs, List.cons_append, lexFrom]
  simp [hbegin, hread]

/-- A blank is read as nothing. -/
theorem lexes_blank : Lexes " " [] mayFollow := by
  intro rest us _ hus
  have hbegin : Token.begin? ' ' = some none := by decide
  have hlist : " ".toList ++ rest = ' ' :: rest := rfl
  rw [hlist, lexFrom]
  simp [hbegin, hus]

/-- Fewer characters may follow. -/
theorem Lexes.mono (h : Lexes s ts mayFollow) (hmono : ∀ c, mayFollow' c → mayFollow c) :
    Lexes s ts mayFollow' :=
  fun rest us hrest hus => h rest us (fun c hc => hmono c (hrest c hc)) hus

/-- A piece that **anything may follow**, and another one behind it. -/
theorem Lexes.append_of_forall (h : Lexes s ts fun _ => True) (h' : Lexes s' ts' mayFollow') :
    Lexes (s ++ s') (ts ++ ts') mayFollow' := by
  intro rest us hrest hus
  rw [String.toList_append, List.append_assoc, List.append_assoc]
  exact h _ _ (fun _ _ => trivial) (h' rest us hrest hus)

/-- **Two pieces next to each other** are read one after the other, when the second one begins
with a character that may follow the first one. -/
theorem Lexes.append (h : Lexes s ts mayFollow) (h' : Lexes s' ts' mayFollow')
    (hnext : ∃ c cs, s'.toList = c :: cs ∧ mayFollow c) :
    Lexes (s ++ s') (ts ++ ts') mayFollow' := by
  obtain ⟨c, cs, hs', hc⟩ := hnext
  intro rest us hrest hus
  rw [String.toList_append, List.append_assoc, List.append_assoc]
  refine h _ _ ?_ (h' rest us hrest hus)
  intro d hd
  rw [hs', List.cons_append, List.head?_cons, Option.mem_some_iff] at hd
  rwa [← hd]

/-- **A piece as a whole text** is read as its tokens. -/
theorem Lexes.lex_eq (h : Lexes s ts mayFollow) : lex s = some ts := by
  have hend : lexFrom none (s.toList ++ []) = some (ts ++ []) := h [] [] (by simp) rfl
  rwa [List.append_nil, List.append_nil] at hend

/-! ### Words, numbers and marks -/

namespace Token

/-- The characters of a word continue it. -/
theorem foldlM_extend?_word (h : ∀ c ∈ cs, isWordChar c = true) (s : String) :
    cs.foldlM extend? (word s) = some (word (s ++ String.ofList cs)) := by
  induction cs generalizing s with
  | nil => simp
  | cons c cs ih =>
    have hc : isWordChar c = true := h c List.mem_cons_self
    have happend : s.push c ++ String.ofList cs = s ++ String.ofList (c :: cs) := by
      apply String.toList_inj.mp
      simp
    rw [List.foldlM_cons, extend?, if_pos hc]
    exact (ih (fun c hc => h c (List.mem_cons_of_mem _ hc)) _).trans (by rw [happend])

/-- Letters, digits and points continue a number. -/
theorem foldlM_extend?_number (h : ∀ c ∈ cs, (isWordChar c || c == '.') = true) (s : String) :
    cs.foldlM extend? (number s) = some (number (s ++ String.ofList cs)) := by
  induction cs generalizing s with
  | nil => simp
  | cons c cs ih =>
    have hc := h c List.mem_cons_self
    have happend : s.push c ++ String.ofList cs = s ++ String.ofList (c :: cs) := by
      apply String.toList_inj.mp
      simp
    rw [List.foldlM_cons, extend?, if_pos hc]
    exact (ih (fun c hc => h c (List.mem_cons_of_mem _ hc)) _).trans (by rw [happend])

/-- A character of a word is no blank. -/
theorem isWhitespace_of_isWordChar {c : Char} (hc : isWordChar c = true) :
    c.isWhitespace = false := by
  by_contra hblank
  rw [Bool.not_eq_false, Char.isWhitespace] at hblank
  simp only [Bool.or_eq_true, decide_eq_true_eq] at hblank
  rcases hblank with ((rfl | rfl) | rfl) | rfl <;> exact absurd hc (by decide)

/-- Whether a text is an **identifier**: characters of words, of which the first is no digit. -/
def isIdentifier (s : String) : Bool :=
  match s.toList with
  | [] => false
  | c :: cs => isWordChar c && !c.isDigit && cs.all isWordChar

/-- An identifier begins with a character of a word. -/
theorem exists_of_isIdentifier (h : isIdentifier s = true) :
    ∃ c cs, s.toList = c :: cs ∧ isWordChar c = true ∧ c.isDigit = false ∧
      ∀ c ∈ cs, isWordChar c = true := by
  rw [isIdentifier] at h
  split at h
  · cases h
  · next c cs hs =>
    simp only [Bool.and_eq_true, Bool.not_eq_true', List.all_eq_true] at h
    exact ⟨c, cs, hs, h.1.1, h.1.2, h.2⟩

/-- An **identifier** is a word. -/
theorem spells_word (h : isIdentifier s = true) : Spells s (word s) := by
  obtain ⟨c, cs, hs, hc, hdigit, hcs⟩ := exists_of_isIdentifier h
  have hblank := isWhitespace_of_isWordChar hc
  have hword : s = c.toString ++ String.ofList cs := by
    apply String.toList_inj.mp
    simp [hs]
  refine ⟨c, cs, word c.toString, hs, ?_, ?_⟩
  · rw [begin?]
    simp [hblank, hdigit, hc]
  · rw [foldlM_extend?_word hcs, ← hword]

/-- A **number** is a digit, and letters, digits and points. -/
theorem spells_number {c : Char} (hs : s.toList = c :: cs) (hc : c.isDigit = true)
    (hcs : ∀ c ∈ cs, (isWordChar c || c == '.') = true) : Spells s (number s) := by
  have hblank : c.isWhitespace = false := isWhitespace_of_isWordChar <| by
    rw [isWordChar, Char.isAlphanum, hc, Bool.or_true, Bool.true_or]
  have hnumber : s = c.toString ++ String.ofList cs := by
    apply String.toList_inj.mp
    simp [hs]
  refine ⟨c, cs, number c.toString, hs, ?_, ?_⟩
  · rw [begin?]
    simp [hblank, hc]
  · rw [foldlM_extend?_number hcs, ← hnumber]

/-- A number may go on behind the **sign of its exponent**. -/
theorem spells_number_exponent {c sign : Char} {ds : List Char}
    (hs : s.toList = c :: (cs ++ 'p' :: sign :: ds)) (hc : c.isDigit = true)
    (hcs : ∀ c ∈ cs, (isWordChar c || c == '.') = true) (hsign : sign = '+' ∨ sign = '-')
    (hds : ∀ c ∈ ds, (isWordChar c || c == '.') = true) : Spells s (number s) := by
  have hhead : ∀ d ∈ cs ++ ['p'], (isWordChar d || d == '.') = true := by
    intro d hd
    rw [List.mem_append, List.mem_singleton] at hd
    rcases hd with hd | rfl
    · exact hcs d hd
    · decide
  obtain ⟨head, hheadList⟩ : ∃ head : String, head.toList = c :: (cs ++ ['p']) :=
    ⟨String.ofList _, String.toList_ofList⟩
  obtain ⟨c', cs', t₀, hlist, hbegin, hrest⟩ := spells_number hheadList hc hhead
  rw [hheadList] at hlist
  obtain ⟨rfl, rfl⟩ := List.cons.inj hlist
  have hstep : (number head).extend? sign = some (number (head.push sign)) := by
    have hlast : head.toList.getLast? = some 'p' := by
      rw [hheadList, ← List.cons_append, List.getLast?_concat]
    rw [extend?, hlast]
    rcases hsign with rfl | rfl <;> rfl
  have hwhole : head.push sign ++ String.ofList ds = s := by
    apply String.toList_inj.mp
    simp [hs, hheadList]
  refine ⟨c, cs ++ 'p' :: sign :: ds, t₀, hs, hbegin, ?_⟩
  have hsplit : cs ++ 'p' :: sign :: ds = cs ++ ['p'] ++ sign :: ds := by simp
  rw [hsplit, List.foldlM_append, hrest, Option.bind_eq_bind, Option.bind_some,
    List.foldlM_cons, hstep, Option.bind_eq_bind, Option.bind_some, foldlM_extend?_number hds,
    hwhole]

/-- A word ends in front of every other character. -/
theorem extend?_word {c : Char} (hc : isWordChar c = false) : (word s).extend? c = none := by
  simp [extend?, hc]

/-- A number ends in front of what is neither a letter nor a digit, a point or a sign. -/
theorem extend?_number {c : Char} (hc : isWordChar c = false) (hpoint : c ∉ ['.', '+', '-']) :
    (number s).extend? c = none := by
  simp_all [extend?]

/-- A mark other than the point ends in front of what no longer mark ends with. -/
theorem extend?_mark {c : Char} (hs : s ≠ ".") (hc : ∀ m ∈ longMarks, m.toList.getLast? ≠ some c) :
    (mark s).extend? c = none := by
  have hlong : s.push c ∉ longMarks := by
    intro hmem
    exact hc _ hmem (by simp)
  simp [extend?, hs, hlong]

/-- A mark other than the point that no longer mark begins with ends at once. -/
theorem extend?_mark_of_forall (hs : s ≠ ".")
    (hlong : ∀ m ∈ longMarks, m.toList.dropLast ≠ s.toList) (c : Char) :
    (mark s).extend? c = none := by
  have hlong : s.push c ∉ longMarks := by
    intro hmem
    exact hlong _ hmem (by simp)
  simp [extend?, hs, hlong]

/-- The point ends in front of what is no digit. -/
theorem extend?_point {c : Char} (hc : c.isDigit = false) : (mark ".").extend? c = none := by
  have hlong : ∀ m ∈ longMarks, m.toList.dropLast ≠ ".".toList := by decide
  have hpush : ".".push c ∉ longMarks := by
    intro hmem
    exact hlong _ hmem (by simp)
  simp [extend?, hc, hpush]

end Token

end Elementary.C
