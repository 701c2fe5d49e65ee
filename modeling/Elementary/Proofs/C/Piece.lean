import Elementary.Proofs.C.Syntax

/-!
# Pieces of expressions

A piece of text is an operand when its tokens, wherever an operand may begin, are read as one tree
and leave alone what waits on the stack: no operator around it can take hold of a part of it. A
piece that only stands between marks may leave operators on the stack, which the closing mark
completes. Calls, selections and whatever stands in parentheses are operands, from what is
enclosed by their marks; what is built with operators is to be enclosed.

## Main definitions

* `IsOperand`: a piece stands for a tree by itself.
* `IsEnclosed`: a piece stands for a tree between marks.

## Main results

* `IsOperand.parenthesized`, `isOperand_call`, `IsOperand.member`: how operands are built.
* `IsEnclosed.binary`, `IsEnclosed.conditional`, `IsEnclosed.cast`, `IsEnclosed.negation`: how
  enclosed pieces are built from operands.
* `IsEnclosed.parse_eq`: the tree of a piece as a whole text.
-/

namespace Elementary.C

open Token (isWordChar)

variable {s s' s₁ s₂ s₃ : String} {t t' t₁ t₂ t₃ : Tree} {ts us : List Token} {fs : List Frame}
  {phase : Phase} {state state' : State} {mayFollow : Char → Prop} {m w : String}

/-! ### Steps of the parser -/

/-- The phases in which an operand may begin. -/
def Phase.IsReady : Phase → Prop
  | operand | opened | arguments => True
  | _ => False

/-- A stack whose innermost frame is open up to a mark of its own, if there is one. -/
def IsSettled (fs : List Frame) : Prop := ∀ f ∈ fs.head?, f.level = 0

theorem reduce_of_isSettled (h : IsSettled fs) {level : Nat} (hlevel : 0 < level) (t : Tree) :
    reduce level fs t = (fs, t) := by
  cases fs with
  | nil => rfl
  | cons f fs =>
    have hf : f.level = 0 := h f rfl
    rw [reduce, if_neg (by omega)]

theorem run_append (h : run state ts = some state') (us : List Token) :
    run state (ts ++ us) = run state' us := by
  rw [run, List.foldlM_append]
  exact congrArg (· >>= fun state => us.foldlM step state) h

theorem run_cons {token : Token} (h : step state token = some state') (us : List Token) :
    run state (token :: us) = run state' us := by
  rw [run, List.foldlM_cons, h]
  rfl

/-- A mark behind an operand. -/
theorem run_complete_mark (us : List Token) (h : stepMark fs t m = some state) :
    run ⟨fs, .complete t⟩ (.mark m :: us) = run state us := by
  have hstep : step ⟨fs, .complete t⟩ (.mark m) = some state := h
  exact run_cons hstep us

/-! The marks behind an operand that close, separate or ask. -/

theorem stepMark_close (fs : List Frame) (t : Tree) : stepMark fs t ")" = close (reduceAll fs t) :=
  rfl

theorem stepMark_comma (fs : List Frame) (t : Tree) :
    stepMark fs t "," = separate (reduceAll fs t) :=
  rfl

theorem stepMark_question (hfs : IsSettled fs) (t : Tree) :
    stepMark fs t "?" = some ⟨.question t :: fs, .operand⟩ := by
  have hreduce := reduce_of_isSettled hfs (Nat.succ_pos conditionalLevel) t
  simp [stepMark, hreduce]

/-- Where an operand may begin, a name is one. -/
theorem step_name (hphase : phase.IsReady) (hw : isFreeWord w = true) :
    step ⟨fs, phase⟩ (.word w) = some ⟨fs, .complete (.name w)⟩ := by
  have htype : typeWords.contains w = false := by
    rw [isFreeWord, Bool.and_eq_true, Bool.not_eq_true'] at hw
    exact hw.1
  have hoperand : stepOperand fs (.word w) = some ⟨fs, .complete (.name w)⟩ := by
    rw [stepOperand, if_pos hw]
  cases phase with
  | operand => exact hoperand
  | opened =>
    simp only [step]
    rwa [htype, if_neg Bool.false_ne_true]
  | arguments => exact hoperand
  | type words => cases hphase
  | selected t => cases hphase
  | complete t => cases hphase

/-- Where an operand may begin, a number is one. -/
theorem step_number (hphase : phase.IsReady) (n : String) :
    step ⟨fs, phase⟩ (.number n) = some ⟨fs, .complete (.number n)⟩ := by
  cases phase <;> first | rfl | cases hphase

/-- Where an operand may begin, a mark other than the closing parenthesis begins one. -/
theorem step_mark (hphase : phase.IsReady) (hm : m ≠ ")") :
    step ⟨fs, phase⟩ (.mark m) = stepOperand fs (.mark m) := by
  cases phase <;> first | cases hphase; done | simp [step, hm]

/-- The words of the name of a type. -/
theorem run_type {words words' : List String} (h : ∀ w ∈ words', typeWords.contains w = true) :
    run ⟨fs, .type words⟩ (words'.map .word) = some ⟨fs, .type (words ++ words')⟩ := by
  induction words' generalizing words with
  | nil => simp [run]
  | cons w words' ih =>
    have hstep : step ⟨fs, .type words⟩ (.word w) = some ⟨fs, .type (words ++ [w])⟩ := by
      simp only [step]
      rw [if_pos (h w List.mem_cons_self)]
    rw [List.map_cons, run_cons hstep, ih fun w hw => h w (List.mem_cons_of_mem _ hw),
      List.append_assoc, List.singleton_append]

/-! ### Pieces -/

/-- The characters that may follow every piece. -/
def MayFollow (c : Char) : Prop := c = ' ' ∨ c = ')' ∨ c = ','

/-- The characters that may follow a piece from which a member may be selected. -/
def MayFollowSelectable (c : Char) : Prop := MayFollow c ∨ c = '.'

/-- A piece of text **stands for a tree by itself**. -/
structure IsOperand (mayFollow : Char → Prop) (s : String) (t : Tree) : Prop where
  /-- Its first character is that of a word, or it opens a parenthesis. -/
  begins : ∃ c cs, s.toList = c :: cs ∧ (isWordChar c = true ∨ c = '(')
  /-- Wherever an operand may begin, its tokens are read as the tree. -/
  reads : ∃ ts, Lexes s ts mayFollow ∧
    ∀ fs phase, phase.IsReady → run ⟨fs, phase⟩ ts = some ⟨fs, .complete t⟩

/-- A piece of text **stands for a tree between marks**: in front of a mark that closes or
separates, its tokens are read as the tree. -/
def IsEnclosed (s : String) (t : Tree) : Prop :=
  ∃ ts, Lexes s ts MayFollow ∧ ∀ fs phase, phase.IsReady → IsSettled fs →
    ∃ fs' t', run ⟨fs, phase⟩ ts = some ⟨fs', .complete t'⟩ ∧ reduceAll fs' t' = (fs, t)

/-- A piece from which a member may be selected may stand as any operand. -/
theorem IsOperand.of_selectable (h : IsOperand MayFollowSelectable s t) :
    IsOperand MayFollow s t where
  begins := h.begins
  reads := by
    obtain ⟨ts, hlex, hrun⟩ := h.reads
    exact ⟨ts, hlex.mono fun c hc => .inl hc, hrun⟩

/-- An operand may stand between marks. -/
theorem IsOperand.isEnclosed (h : IsOperand MayFollow s t) : IsEnclosed s t := by
  obtain ⟨ts, hlex, hrun⟩ := h.reads
  exact ⟨ts, hlex, fun fs phase hphase hfs =>
    ⟨fs, t, hrun fs phase hphase, reduce_of_isSettled hfs Nat.one_pos t⟩⟩

/-- A piece that stands for a tree, **as a whole text**. -/
theorem IsEnclosed.parse_eq (h : IsEnclosed s t) : parse s = some t := by
  obtain ⟨ts, hlex, hrun⟩ := h
  obtain ⟨fs, t', hrun, hreduce⟩ := hrun [] .operand trivial (by simp [IsSettled])
  have htree : State.tree? ⟨fs, .complete t'⟩ = some t := by
    simp only [State.tree?]
    rw [hreduce]
  simp [parse, hlex.lex_eq, hrun, htree]

/-! ### Marks between pieces -/

theorem lexes_open : Lexes "(" [.mark "("] fun _ => True :=
  Token.Spells.lexes ⟨'(', [], _, rfl, rfl, rfl⟩ fun c _ =>
    Token.extend?_mark_of_forall (by decide) (by decide) c

theorem lexes_close : Lexes ")" [.mark ")"] mayFollow :=
  Token.Spells.lexes ⟨')', [], _, rfl, rfl, rfl⟩ fun c _ =>
    Token.extend?_mark_of_forall (by decide) (by decide) c

theorem lexes_comma : Lexes ", " [.mark ","] fun _ => True :=
  have hcomma : Lexes "," [.mark ","] fun _ => True :=
    Token.Spells.lexes ⟨',', [], _, rfl, rfl, rfl⟩ fun c _ =>
      Token.extend?_mark_of_forall (by decide) (by decide) c
  hcomma.append_of_forall lexes_blank

/-- A mark between blanks. -/
theorem lexes_between (h : Token.Spells m (.mark m)) (hm : m ≠ ".") :
    Lexes (" " ++ m ++ " ") [.mark m] fun _ => True := by
  have hmark : Lexes m [.mark m] fun c => c = ' ' := by
    apply h.lexes
    rintro c rfl
    exact Token.extend?_mark hm (by decide)
  have hleft : Lexes (" " ++ m) ([] ++ [.mark m]) fun c => c = ' ' :=
    lexes_blank.append_of_forall hmark
  exact hleft.append lexes_blank ⟨' ', [], rfl, rfl⟩

/-- The minus sign in front of an operand. -/
theorem lexes_minus :
    Lexes "-" [.mark "-"] fun c => isWordChar c = true ∨ c = '(' := by
  refine Token.Spells.lexes ⟨'-', [], _, rfl, rfl, rfl⟩ fun c hc => ?_
  refine Token.extend?_mark (by decide) fun m hm hlast => ?_
  have hends : ∀ m ∈ Token.longMarks,
      (m.toList.getLast?.all fun c => !isWordChar c && c != '(') = true := by decide
  have hend := hends m hm
  rw [hlast, Option.all_some, Bool.and_eq_true, Bool.not_eq_true', bne_iff_ne] at hend
  rcases hc with hc | hc
  · rw [hend.1] at hc
    exact Bool.false_ne_true hc
  · exact hend.2 hc

/-! ### Operands -/

/-- A name in front of what does not continue it. -/
theorem lexes_name (h : isName w = true) (hstop : ∀ c, mayFollow c → isWordChar c = false) :
    Lexes w [.word w] mayFollow :=
  (Token.spells_word (Bool.and_eq_true_iff.mp h).1).lexes fun c hc =>
    Token.extend?_word (hstop c hc)

theorem begins_of_isName (h : isName w = true) :
    ∃ c cs, w.toList = c :: cs ∧ (isWordChar c = true ∨ c = '(') := by
  obtain ⟨c, cs, hcs, hc, -⟩ := Token.exists_of_isIdentifier (Bool.and_eq_true_iff.mp h).1
  exact ⟨c, cs, hcs, .inl hc⟩

/-- The beginning of a piece does not depend on what follows. -/
theorem begins_append {p : Char → Prop} (h : ∃ c cs, s.toList = c :: cs ∧ p c) (s' : String) :
    ∃ c cs, (s ++ s').toList = c :: cs ∧ p c := by
  obtain ⟨c, cs, hcs, hc⟩ := h
  exact ⟨c, cs ++ s'.toList, by rw [String.toList_append, hcs, List.cons_append], hc⟩

theorem isWordChar_of_mayFollowSelectable (c : Char) (h : MayFollowSelectable c) :
    isWordChar c = false := by
  rcases h with (rfl | rfl | rfl) | rfl <;> decide

/-- A **name** stands for itself. -/
theorem isOperand_name (h : isName w = true) : IsOperand MayFollowSelectable w (.name w) where
  begins := begins_of_isName h
  reads := ⟨[.word w], lexes_name h isWordChar_of_mayFollowSelectable, fun _ _ hphase =>
    run_cons (step_name hphase (Bool.and_eq_true_iff.mp h).2) []⟩

/-- A **number** stands for itself; no member may be selected from it. -/
theorem isOperand_number (h : Token.Spells s (.number s))
    (hbegins : ∃ c cs, s.toList = c :: cs ∧ isWordChar c = true) :
    IsOperand MayFollow s (.number s) where
  begins := by
    obtain ⟨c, cs, hcs, hc⟩ := hbegins
    exact ⟨c, cs, hcs, .inl hc⟩
  reads := by
    refine ⟨[.number s], h.lexes ?_, fun _ _ hphase => run_cons (step_number hphase s) []⟩
    rintro c (rfl | rfl | rfl) <;> exact Token.extend?_number (by decide) (by decide)

/-- The **selection** of a member is an operand. -/
theorem IsOperand.member (h : IsOperand MayFollowSelectable s t) (hw : isName w = true) :
    IsOperand MayFollowSelectable (s ++ "." ++ w) (.member t w) where
  begins := begins_append (begins_append h.begins _) _
  reads := by
    obtain ⟨ts, hlex, hrun⟩ := h.reads
    obtain ⟨c, cs, hcs, -, hdigit, -⟩ := Token.exists_of_isIdentifier (Bool.and_eq_true_iff.mp hw).1
    have hpoint : Lexes "." [.mark "."] fun c => c.isDigit = false :=
      Token.Spells.lexes ⟨'.', [], _, rfl, rfl, rfl⟩ fun c hc => Token.extend?_point hc
    refine ⟨ts ++ [.mark "."] ++ [.word w],
      (hlex.append hpoint ⟨'.', [], rfl, .inr rfl⟩).append
        (lexes_name hw isWordChar_of_mayFollowSelectable) ⟨c, cs, hcs, hdigit⟩, ?_⟩
    intro fs phase hphase
    have hselect : stepMark fs t "." = some ⟨fs, .selected t⟩ := rfl
    have hmember : step ⟨fs, .selected t⟩ (.word w) = some ⟨fs, .complete (.member t w)⟩ := by
      simp only [step]
      rw [if_pos (Bool.and_eq_true_iff.mp hw).2]
    rw [List.append_assoc, run_append (hrun fs phase hphase), List.singleton_append,
      run_complete_mark _ hselect, run_cons hmember]
    rfl

/-- Whatever stands **in parentheses** is an operand. -/
theorem IsEnclosed.parenthesized (h : IsEnclosed s t) :
    IsOperand MayFollowSelectable ("(" ++ s ++ ")") t where
  begins := ⟨'(', (s ++ ")").toList, by simp [String.toList_append], .inr rfl⟩
  reads := by
    obtain ⟨ts, hlex, hrun⟩ := h
    refine ⟨[.mark "("] ++ ts ++ [.mark ")"],
      (lexes_open.append_of_forall hlex).append lexes_close ⟨')', [], rfl, .inr (.inl rfl)⟩, ?_⟩
    intro fs phase hphase
    obtain ⟨fs', t', hinner, hreduce⟩ := hrun (.group :: fs) .opened trivial
      (fun f hf => by rw [← Option.some.inj hf]; rfl)
    have hopen : step ⟨fs, phase⟩ (.mark "(") = some ⟨.group :: fs, .opened⟩ :=
      step_mark hphase (by decide)
    have hclose : stepMark fs' t' ")" = some ⟨fs, .complete t⟩ := by
      rw [stepMark_close, hreduce]
      rfl
    rw [List.append_assoc, List.singleton_append, run_cons hopen, run_append hinner,
      run_complete_mark _ hclose]
    rfl

/-! ### Calls -/

/-- A call up to its closing parenthesis: arguments that are enclosed, with commas between
them. -/
theorem exists_arguments {ss : List String} {trees : List Tree} (hne : ss ≠ [])
    (h : List.Forall₂ IsEnclosed ss trees) :
    ∃ ts, Lexes (", ".intercalate ss) ts MayFollow ∧
      ∀ fs phase f done, phase.IsReady →
        run ⟨.call f done :: fs, phase⟩ (ts ++ [.mark ")"]) =
          some ⟨fs, .complete (.call f (done ++ trees))⟩ := by
  induction h with
  | nil => exact absurd rfl hne
  | @cons s t ss trees hs hss ih =>
    obtain ⟨ts, hlex, hrun⟩ := hs
    have hsettled (fs : List Frame) (f : Tree) (done : List Tree) :
        IsSettled (.call f done :: fs) := by
      intro g hg
      rw [← Option.some.inj hg]
      rfl
    rcases ss.eq_nil_or_concat with rfl | ⟨init, last, hlast⟩
    · -- the last argument, which the parenthesis closes
      cases hss
      refine ⟨ts, by simpa using hlex, fun fs phase f done hphase => ?_⟩
      obtain ⟨fs', t', hinner, hreduce⟩ := hrun _ phase hphase (hsettled fs f done)
      have hclose : stepMark fs' t' ")" = some ⟨fs, .complete (.call f (done ++ [t]))⟩ := by
        rw [stepMark_close, hreduce]
        rfl
      rw [run_append hinner, run_complete_mark _ hclose]
      rfl
    · obtain ⟨us, hlex', hrun'⟩ := ih (by simp [hlast])
      have htext : ", ".intercalate (s :: ss) = s ++ ", " ++ ", ".intercalate ss := by
        cases ss with
        | nil => simp at hlast
        | cons s' ss => rw [String.intercalate_cons_cons]
      refine ⟨ts ++ [.mark ","] ++ us, ?_, fun fs phase f done hphase => ?_⟩
      · rw [htext]
        exact (hlex.append lexes_comma ⟨',', [' '], rfl, .inr (.inr rfl)⟩).append_of_forall hlex'
      · obtain ⟨fs', t', hinner, hreduce⟩ := hrun _ phase hphase (hsettled fs f done)
        have hcomma : stepMark fs' t' "," = some ⟨.call f (done ++ [t]) :: fs, .operand⟩ := by
          rw [stepMark_comma, hreduce]
          rfl
        rw [List.append_assoc, List.append_assoc, run_append hinner, List.singleton_append,
          run_complete_mark _ hcomma, hrun' fs .operand f _ trivial, List.append_assoc,
          List.singleton_append]

/-- The **call** of a function by its name is an operand. -/
theorem isOperand_call {ss : List String} {trees : List Tree} (hw : isName w = true)
    (h : List.Forall₂ IsEnclosed ss trees) :
    IsOperand MayFollowSelectable (w ++ "(" ++ ", ".intercalate ss ++ ")")
      (.call (.name w) trees) where
  begins := begins_append (begins_append (begins_append (begins_of_isName hw) _) _) _
  reads := by
    have hname : Lexes w [.word w] fun c => c = '(' :=
      lexes_name hw fun c hc => by rw [hc]; decide
    have hopen : Lexes (w ++ "(") ([.word w] ++ [.mark "("]) fun _ => True :=
      hname.append lexes_open ⟨'(', [], rfl, rfl⟩
    have hbegin (fs : List Frame) (phase : Phase) (hphase : phase.IsReady) (ts : List Token) :
        run ⟨fs, phase⟩ (.word w :: .mark "(" :: ts) =
          run ⟨.call (.name w) [] :: fs, .arguments⟩ ts := by
      have hcall : stepMark fs (.name w) "(" = some ⟨.call (.name w) [] :: fs, .arguments⟩ := rfl
      rw [run_cons (step_name hphase (Bool.and_eq_true_iff.mp hw).2), run_complete_mark _ hcall]
    by_cases hne : ss = []
    · subst hne
      cases h
      refine ⟨[.word w, .mark "(", .mark ")"], ?_, fun fs phase hphase => ?_⟩
      · have hempty : w ++ "(" ++ ", ".intercalate [] ++ ")" = w ++ "(" ++ ")" := by simp
        rw [hempty]
        exact hopen.append_of_forall lexes_close
      · rw [hbegin fs phase hphase]
        rfl
    · obtain ⟨ts, hlex, hrun⟩ := exists_arguments hne h
      refine ⟨[.word w] ++ [.mark "("] ++ ts ++ [.mark ")"],
        (hopen.append_of_forall hlex).append lexes_close ⟨')', [], rfl, .inr (.inl rfl)⟩,
        fun fs phase hphase => ?_⟩
      have hend := hrun fs .arguments (.name w) [] trivial
      rw [List.nil_append] at hend
      rw [← hend, ← hbegin fs phase hphase]
      simp

/-! ### Enclosed pieces -/

/-- The **negation** of an operand. -/
theorem IsOperand.negation (h : IsOperand MayFollow s t) :
    IsEnclosed ("-" ++ s) (.unary "-" t) := by
  obtain ⟨ts, hlex, hrun⟩ := h.reads
  refine ⟨[.mark "-"] ++ ts, lexes_minus.append hlex h.begins, fun fs phase hphase hfs => ?_⟩
  have hminus : step ⟨fs, phase⟩ (.mark "-") = some ⟨.unary "-" :: fs, .operand⟩ :=
    step_mark hphase (by decide)
  refine ⟨.unary "-" :: fs, t, ?_, reduce_of_isSettled hfs Nat.one_pos _⟩
  rw [List.singleton_append, run_cons hminus]
  exact hrun _ .operand trivial

/-- The name of a type in front of the closing parenthesis. -/
theorem lexes_typeName {words : List String} (hne : words ≠ [])
    (hwords : ∀ w ∈ words, typeWords.contains w = true) :
    Lexes (" ".intercalate words) (words.map .word) fun c => c = ')' := by
  have hword : ∀ w ∈ words, ∀ stop, isWordChar stop = false →
      Lexes w [.word w] fun c => c = stop := by
    have hidentifier : ∀ w ∈ typeWords, Token.isIdentifier w = true := by decide
    intro w hw stop hstop
    refine (Token.spells_word (hidentifier w (List.contains_iff_mem.mp (hwords w hw)))).lexes ?_
    rintro c rfl
    exact Token.extend?_word hstop
  induction words with
  | nil => exact absurd rfl hne
  | cons w words ih =>
    cases words with
    | nil => simpa using hword w List.mem_cons_self ')' (by decide)
    | cons w' words =>
      have hrest := ih (List.cons_ne_nil _ _)
        (fun w hw => hwords w (List.mem_cons_of_mem _ hw))
        (fun w hw => hword w (List.mem_cons_of_mem _ hw))
      have hfirst : Lexes (w ++ " ") ([.word w] ++ []) fun _ => True :=
        (hword w List.mem_cons_self ' ' (by decide)).append lexes_blank ⟨' ', [], rfl, rfl⟩
      rw [String.intercalate_cons_cons]
      exact hfirst.append_of_forall hrest

/-- The **conversion** of an operand to a type. -/
theorem IsOperand.cast (h : IsOperand MayFollow s t) (words : List String) (hne : words ≠ [])
    (hwords : ∀ w ∈ words, typeWords.contains w = true) :
    IsEnclosed ("(" ++ " ".intercalate words ++ ") " ++ s)
      (.cast (" ".intercalate words) t) := by
  have hlexes := lexes_typeName hne hwords
  obtain ⟨ts, hlex, hrun⟩ := h.reads
  have hclose : Lexes ") " ([.mark ")"] ++ []) fun _ => True :=
    lexes_close.append_of_forall lexes_blank
  refine ⟨[.mark "("] ++ words.map .word ++ [.mark ")"] ++ ts, ?_, fun fs phase hphase hfs => ?_⟩
  · exact ((lexes_open.append_of_forall hlexes).append hclose ⟨')', [' '], rfl, rfl⟩
      ).append_of_forall hlex
  · have hopen : step ⟨fs, phase⟩ (.mark "(") = some ⟨.group :: fs, .opened⟩ :=
      step_mark hphase (by decide)
    have htype : run ⟨.group :: fs, .opened⟩ (words.map .word) =
        some ⟨.group :: fs, .type words⟩ := by
      cases words with
      | nil => exact absurd rfl hne
      | cons w words =>
        have hfirst : step ⟨.group :: fs, .opened⟩ (.word w) = some ⟨.group :: fs, .type [w]⟩ := by
          simp only [step]
          rw [if_pos (hwords w List.mem_cons_self)]
        rw [List.map_cons, run_cons hfirst,
          run_type fun w hw => hwords w (List.mem_cons_of_mem _ hw)]
        rfl
    have hcast : step ⟨.group :: fs, .type words⟩ (.mark ")") =
        some ⟨.cast (" ".intercalate words) :: fs, .operand⟩ := rfl
    refine ⟨.cast (" ".intercalate words) :: fs, t, ?_, reduce_of_isSettled hfs Nat.one_pos _⟩
    rw [List.append_assoc, List.append_assoc, List.singleton_append, run_cons hopen,
      run_append htype, List.singleton_append, run_cons hcast]
    exact hrun _ .operand trivial

/-- Every operator binds more tightly than the marks that close or separate. -/
theorem level_pos {level : Nat} (h : level? m = some level) : 0 < level := by
  have hlevels : ∀ row ∈ levels, 0 < row.2 := by decide
  obtain ⟨row, hrow, rfl⟩ := Option.map_eq_some_iff.mp h
  exact hlevels row (List.mem_of_find?_eq_some hrow)

/-- The marks behind an operand that are no operators have no level. -/
theorem stepMark_of_level? {level : Nat} (hlevel : level? m = some level) (hfs : IsSettled fs)
    (t : Tree) : stepMark fs t m = some ⟨.binary m t :: fs, .operand⟩ := by
  have hmarks : ∀ mark ∈ ["(", ".", ")", ",", ":", "?"], m ≠ mark := by
    rintro mark hmark rfl
    have hnone : ∀ mark ∈ ["(", ".", ")", ",", ":", "?"], level? mark = none := by decide
    rw [hnone m hmark] at hlevel
    cases hlevel
  rw [stepMark, if_neg (hmarks "(" (by decide)), if_neg (hmarks "." (by decide)),
    if_neg (hmarks ")" (by decide)), if_neg (hmarks "," (by decide)),
    if_neg (hmarks ":" (by decide)), if_neg (hmarks "?" (by decide)), hlevel]
  simp [reduce_of_isSettled hfs (level_pos hlevel)]

/-- An **operator between two operands**. -/
theorem IsOperand.binary {level : Nat} (h₁ : IsOperand MayFollow s₁ t₁)
    (h₂ : IsOperand MayFollow s₂ t₂) (hm : Token.Spells m (.mark m))
    (hlevel : level? m = some level) :
    IsEnclosed (s₁ ++ " " ++ m ++ " " ++ s₂) (.binary m t₁ t₂) := by
  obtain ⟨ts₁, hlex₁, hrun₁⟩ := h₁.reads
  obtain ⟨ts₂, hlex₂, hrun₂⟩ := h₂.reads
  have hpoint : m ≠ "." := by
    rintro rfl
    cases hlevel
  have htext : s₁ ++ " " ++ m ++ " " ++ s₂ = s₁ ++ (" " ++ m ++ " ") ++ s₂ := by
    simp only [String.append_assoc]
  rw [htext]
  refine ⟨ts₁ ++ [.mark m] ++ ts₂, ?_, fun fs phase hphase hfs => ?_⟩
  · exact (hlex₁.append (lexes_between hm hpoint)
      ⟨' ', (m ++ " ").toList, by simp, .inl rfl⟩).append_of_forall hlex₂
  · refine ⟨.binary m t₁ :: fs, t₂, ?_, ?_⟩
    · rw [List.append_assoc, run_append (hrun₁ fs phase hphase), List.singleton_append,
        run_complete_mark _ (stepMark_of_level? hlevel hfs t₁)]
      exact hrun₂ _ .operand trivial
    · have hbinds : 1 ≤ Frame.level (.binary m t₁) := by
        rw [Frame.level, hlevel]
        exact level_pos hlevel
      rw [reduceAll, reduce, if_pos hbinds]
      exact reduce_of_isSettled hfs Nat.one_pos _

/-- A **conditional** of three operands. -/
theorem IsOperand.conditional (h₁ : IsOperand MayFollow s₁ t₁) (h₂ : IsOperand MayFollow s₂ t₂)
    (h₃ : IsOperand MayFollow s₃ t₃) :
    IsEnclosed (s₁ ++ " ? " ++ s₂ ++ " : " ++ s₃) (.conditional t₁ t₂ t₃) := by
  obtain ⟨ts₁, hlex₁, hrun₁⟩ := h₁.reads
  obtain ⟨ts₂, hlex₂, hrun₂⟩ := h₂.reads
  obtain ⟨ts₃, hlex₃, hrun₃⟩ := h₃.reads
  have hquestion : Lexes " ? " [.mark "?"] fun _ => True :=
    lexes_between ⟨'?', [], _, rfl, rfl, rfl⟩ (by decide)
  have hcolon : Lexes " : " [.mark ":"] fun _ => True :=
    lexes_between ⟨':', [], _, rfl, rfl, rfl⟩ (by decide)
  refine ⟨ts₁ ++ [.mark "?"] ++ ts₂ ++ [.mark ":"] ++ ts₃, ?_, fun fs phase hphase hfs => ?_⟩
  · exact (((hlex₁.append hquestion ⟨' ', ['?', ' '], rfl, .inl rfl⟩).append_of_forall hlex₂).append
      hcolon ⟨' ', [':', ' '], rfl, .inl rfl⟩).append_of_forall hlex₃
  · have hask := stepMark_question hfs t₁
    have hchoose : stepMark (.question t₁ :: fs) t₂ ":" = some ⟨.colon t₁ t₂ :: fs, .operand⟩ :=
      rfl
    refine ⟨.colon t₁ t₂ :: fs, t₃, ?_, reduce_of_isSettled hfs Nat.one_pos _⟩
    simp only [List.append_assoc, List.cons_append, List.nil_append]
    rw [run_append (hrun₁ fs phase hphase), run_complete_mark _ hask,
      run_append (hrun₂ _ .operand trivial), run_complete_mark _ hchoose]
    exact hrun₃ _ .operand trivial

end Elementary.C
