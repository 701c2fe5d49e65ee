import Elementary.Source.Buffer
import Mathlib.Data.List.Nodup
import Mathlib.Data.List.Perm.Subperm
import Mathlib.Data.List.Range

/-!
# Fresh names

A name is free when no open scope has it. The search for one tries a stem and then the stem with the
numbers from zero on. Different numbers make different names, whatever the stem ends with, so that
among one more of them than names are visible there is a free one, and the search ends.

What is declared in a block is forgotten with the block. So the names that are visible after some
commands are those that were declared before and not inside of a block that has been ended since.
This is what each command preserves, and with it a fresh name is none of them.

## Main definitions

* `Scopes.Finds`: the search for a free number, without a bound.
* `NameCommand`, `Session`, `runNames`: what is done to the names of a text, and what happened.
* `visibleAfter`: the names that are visible after what happened.

## Main results

* `Scopes.numbered_injective`, `Scopes.exists_free_number`: a number is free.
* `Scopes.finds_searchFree`: the bound of the search is never reached.
* `Session.Tracks.run`: a run can be made, and what is visible then.
* `freshNames_free`: the search ends, and fresh names are not visible.
-/

namespace Elementary.Source

variable {s : Scopes} {stem name : String} {i fuel depth : Nat}

/-! ### The search for a free name -/

namespace Scopes

/-- The **search for a free number** from `i` on: it goes on as long as the name with the number is
visible. -/
inductive Finds (s : Scopes) (stem : String) : Nat → String → Prop
  | found {i : Nat} (h : s.isDeclared (numbered stem i) = false) : Finds s stem i (numbered stem i)
  | next {i : Nat} {name : String} (h : s.isDeclared (numbered stem i) = true)
    (hrest : Finds s stem (i + 1) name) : Finds s stem i name

/-- A name is declared when it is **one of those that are visible**. -/
theorem isDeclared_iff : s.isDeclared name = true ↔ name ∈ s.visible := by
  rw [isDeclared, visible, List.any_eq_true, List.mem_flatten]
  exact exists_congr fun names => and_congr_right fun _ => List.contains_iff_mem

theorem isDeclared_eq_false_iff : s.isDeclared name = false ↔ name ∉ s.visible := by
  rw [← isDeclared_iff, Bool.not_eq_true]

/-- **Different numbers make different names** of a stem. -/
theorem numbered_injective (stem : String) : Function.Injective (numbered stem) := by
  intro i j h
  have hdigits : (toString i).toList = (toString j).toList := by
    have := congrArg String.toList h
    rwa [numbered, numbered, String.toList_append, String.toList_append,
      List.append_cancel_left_eq] at this
  have hread := congrArg (Nat.ofDigitChars 10 · 0) hdigits
  simpa [Nat.toString_eq_ofList_toDigits] using hread

/-- **Some number is free**, at the latest the one that is as large as there are names. -/
theorem exists_free_number (s : Scopes) (stem : String) :
    ∃ i ≤ s.visible.length, s.isDeclared (numbered stem i) = false := by
  by_contra! hall
  -- so many different names are not visible
  have hnodup : ((List.range (s.visible.length + 1)).map (numbered stem)).Nodup :=
    List.nodup_range.map (numbered_injective stem)
  have hsubset : (List.range (s.visible.length + 1)).map (numbered stem) ⊆ s.visible := by
    intro name hname
    obtain ⟨i, hi, rfl⟩ := List.mem_map.mp hname
    have hdeclared := hall i (Nat.lt_succ_iff.mp (List.mem_range.mp hi))
    exact isDeclared_iff.mp (Bool.not_eq_false _ ▸ hdeclared)
  have hlength := (hnodup.subperm hsubset).length_le
  rw [List.length_map, List.length_range] at hlength
  omega

/-- **The search ends** at a number that is free, with what the bounded search gives, when the bound
is not below the number. -/
theorem finds_searchFree {j : Nat} (hi : i ≤ j) (hj : j ≤ i + fuel)
    (hfree : s.isDeclared (numbered stem j) = false) :
    s.Finds stem i (s.searchFree stem fuel i) := by
  induction fuel generalizing i with
  | zero =>
    obtain rfl : i = j := by omega
    exact .found hfree
  | succ fuel ih =>
    rw [searchFree]
    split
    · next hdeclared =>
      have hne : i ≠ j := by
        rintro rfl
        rw [hfree] at hdeclared
        cases hdeclared
      exact .next hdeclared (ih (by omega) (by omega))
    · next hdeclared => exact .found (Bool.not_eq_true _ ▸ hdeclared)

/-- **What is found** is not visible. -/
theorem Finds.not_mem (h : s.Finds stem i name) : name ∉ s.visible := by
  induction h with
  | found h => exact isDeclared_eq_false_iff.mp h
  | next _ _ ih => exact ih

/-- **The search for a free name** gives the stem, or ends with the stem and a number. -/
theorem finds_freeName (s : Scopes) (stem : String) :
    if s.isDeclared stem then s.Finds stem 0 (s.freeName stem) else s.freeName stem = stem := by
  rw [freeName]
  split
  · next h =>
    obtain ⟨j, hj, hfree⟩ := s.exists_free_number stem
    exact finds_searchFree j.zero_le (by omega) hfree
  · rfl

/-- A free name **is not visible**. -/
theorem freeName_not_mem (s : Scopes) (stem : String) : s.freeName stem ∉ s.visible := by
  have h := s.finds_freeName stem
  split at h
  · exact h.not_mem
  · next hdeclared =>
    rw [h]
    exact isDeclared_eq_false_iff.mp (Bool.not_eq_true _ ▸ hdeclared)

end Scopes

/-! ### What is done to names -/

/-- What is **done to the names** of a source text. -/
inductive NameCommand where
  /-- A name is declared. -/
  | declare (name : String)
  /-- A free name is declared. -/
  | fresh (stem : String)
  /-- A block is begun behind a header. -/
  | openBlock (header : String)
  /-- The innermost block is ended with a footer. -/
  | closeBlock (footer after : String)

/-- What **happened to the names** of a source text. -/
inductive NameEvent where
  | declared (name : String)
  | opened
  | closed

/-- A **text with what happened to its names**, the last event first. -/
structure Session where
  history : List NameEvent
  buffer : Buffer

/-- A session **after a command**, if there is a scope for it. -/
def NameCommand.apply (s : Session) : NameCommand → Option Session
  | declare name => (s.buffer.declare? name).map fun b => ⟨.declared name :: s.history, b⟩
  | fresh stem => (s.buffer.fresh? stem).map fun (name, b) => ⟨.declared name :: s.history, b⟩
  | openBlock header => some ⟨.opened :: s.history, s.buffer.openBlock header⟩
  | closeBlock footer after =>
    (s.buffer.closeBlock? footer after).map fun b => ⟨.closed :: s.history, b⟩

/-- A session **after some commands**. -/
def runNames (s : Session) (cs : List NameCommand) : Option Session :=
  cs.foldlM NameCommand.apply s

/-- Whether commands that are given inside of `depth` blocks **end only these blocks and those that
they begin**. -/
def endsOwnBlocks : (depth : Nat) → List NameCommand → Bool
  | _, [] => true
  | depth, .declare _ :: cs => endsOwnBlocks depth cs
  | depth, .fresh _ :: cs => endsOwnBlocks depth cs
  | depth, .openBlock _ :: cs => endsOwnBlocks (depth + 1) cs
  | 0, .closeBlock _ _ :: _ => false
  | depth + 1, .closeBlock _ _ :: cs => endsOwnBlocks depth cs

/-- The names that are **visible after some events**, the last one first, when the `ended` innermost
of the blocks that are open after them are left out: the names of `outside`, and those that were
declared in a block that is still open. -/
def visibleAfter (outside : List String) : (ended : Nat) → List NameEvent → List String
  | _, [] => outside
  | 0, .declared name :: events => name :: visibleAfter outside 0 events
  | ended + 1, .declared _ :: events => visibleAfter outside (ended + 1) events
  | ended, .opened :: events => visibleAfter outside (ended - 1) events
  | ended, .closed :: events => visibleAfter outside (ended + 1) events

/-- A session **keeps track** of the names that are visible inside and outside of its `depth` open
blocks, around which there is a scope. -/
structure Session.Tracks (outside : List String) (depth : Nat) (s : Session) : Prop where
  scopes : depth < s.buffer.scopes.length
  visible : ∀ k ≤ depth,
    Scopes.visible (s.buffer.scopes.drop k) = visibleAfter outside k s.history

namespace Session

variable {s : Session} {outside : List String}

/-- Before any command, the names around a text are visible. -/
theorem tracks_start {b : Buffer} (hscopes : b.scopes ≠ []) :
    Tracks b.scopes.visible 0 ⟨[], b⟩ where
  scopes := List.length_pos_iff.mpr hscopes
  visible k hk := by
    obtain rfl := Nat.le_zero.mp hk
    rfl

/-- **A declared name** is visible in the innermost block. -/
theorem Tracks.declare (h : s.Tracks outside depth) (name : String) :
    ∃ b, s.buffer.declare? name = some b ∧
      Tracks outside depth ⟨.declared name :: s.history, b⟩ := by
  obtain ⟨names, rest, hscopes⟩ : ∃ names rest, s.buffer.scopes = names :: rest :=
    List.exists_cons_of_length_pos (Nat.zero_lt_of_lt h.scopes)
  have hdeclare : s.buffer.declare? name =
      some { s.buffer with scopes := (name :: names) :: rest } := by
    rw [Buffer.declare?, hscopes]
    rfl
  have hdeep := h.scopes
  rw [hscopes] at hdeep
  refine ⟨_, hdeclare, hdeep, fun k hk => ?_⟩
  have hvisible := h.visible k hk
  rw [hscopes] at hvisible
  cases k with
  | zero => exact congrArg (name :: ·) hvisible
  | succ k => exact hvisible

/-- **A fresh name** is declared like any other. -/
theorem Tracks.fresh (h : s.Tracks outside depth) (stem : String) :
    ∃ b, s.buffer.fresh? stem = some (s.buffer.scopes.freeName stem, b) ∧
      Tracks outside depth ⟨.declared (s.buffer.scopes.freeName stem) :: s.history, b⟩ := by
  obtain ⟨b, hb, htracks⟩ := h.declare (s.buffer.scopes.freeName stem)
  refine ⟨b, ?_, htracks⟩
  rw [Buffer.fresh?, hb]
  rfl

/-- **A block begins** without names of its own. -/
theorem Tracks.openBlock (h : s.Tracks outside depth) (header : String) :
    Tracks outside (depth + 1) ⟨.opened :: s.history, s.buffer.openBlock header⟩ where
  scopes := Nat.succ_lt_succ h.scopes
  visible k hk := by
    cases k with
    | zero => exact h.visible 0 depth.zero_le
    | succ k => exact h.visible k (Nat.le_of_succ_le_succ hk)

/-- **With a block** the names that were declared in it are forgotten. -/
theorem Tracks.closeBlock (h : s.Tracks outside (depth + 1)) (footer after : String) :
    ∃ b, s.buffer.closeBlock? footer after = some b ∧
      Tracks outside depth ⟨.closed :: s.history, b⟩ := by
  obtain ⟨names, rest, hscopes⟩ : ∃ names rest, s.buffer.scopes = names :: rest :=
    List.exists_cons_of_length_pos (Nat.zero_lt_of_lt h.scopes)
  have hdeep := h.scopes
  rw [hscopes] at hdeep
  refine ⟨_, by rw [Buffer.closeBlock?, hscopes], Nat.lt_of_succ_lt_succ hdeep, fun k hk => ?_⟩
  have hvisible := h.visible (k + 1) (Nat.succ_le_succ hk)
  rw [hscopes] at hvisible
  exact hvisible

/-- **Commands that end only their own blocks can be given**, one after the other, and the session
keeps track of the names. -/
theorem Tracks.run {before rest : List NameCommand} (h : s.Tracks outside depth)
    (hcs : endsOwnBlocks depth (before ++ rest) = true) :
    ∃ s' depth', runNames s before = some s' ∧ s'.Tracks outside depth' ∧
      endsOwnBlocks depth' rest = true := by
  induction before generalizing s depth with
  | nil => exact ⟨s, depth, rfl, h, hcs⟩
  | cons c cs ih =>
    have hcons : ∀ {s₁}, c.apply s = some s₁ → runNames s (c :: cs) = runNames s₁ cs := fun hc => by
      rw [runNames, List.foldlM_cons, hc]
      rfl
    rw [List.cons_append] at hcs
    cases c with
    | declare name =>
      obtain ⟨b, hb, htracks⟩ := h.declare name
      rw [hcons (by rw [NameCommand.apply, hb]; rfl)]
      exact ih htracks hcs
    | fresh stem =>
      obtain ⟨b, hb, htracks⟩ := h.fresh stem
      rw [hcons (by rw [NameCommand.apply, hb]; rfl)]
      exact ih htracks hcs
    | openBlock header =>
      rw [hcons rfl]
      exact ih (h.openBlock header) hcs
    | closeBlock footer after =>
      cases depth with
      | zero => cases hcs
      | succ depth =>
        obtain ⟨b, hb, htracks⟩ := h.closeBlock footer after
        rw [hcons (by rw [NameCommand.apply, hb]; rfl)]
        exact ih htracks hcs

end Session

/-- **Fresh names are free, and the search for them ends.** In any scopes the search for a free name
ends, with the stem when it is free and else with the stem and the first number that makes it free,
and no scope has the name. Commands that end only their own blocks can all be given, in any scopes,
and a fresh name is none of those that are visible where it is asked for: neither one from outside
nor one that was declared before in a block that is still open. -/
theorem freshNames_free :
    (∀ (s : Scopes) (stem : String), (∀ names ∈ s, s.freeName stem ∉ names) ∧
      if s.isDeclared stem then s.Finds stem 0 (s.freeName stem) else s.freeName stem = stem) ∧
    ∀ (b : Buffer) (cs : List NameCommand), b.scopes ≠ [] → endsOwnBlocks 0 cs = true →
      (∃ s, runNames ⟨[], b⟩ cs = some s) ∧
      ∀ before stem after, cs = before ++ .fresh stem :: after →
        ∃ s name b', runNames ⟨[], b⟩ before = some s ∧ s.buffer.fresh? stem = some (name, b') ∧
          s.buffer.scopes.visible = visibleAfter b.scopes.visible 0 s.history ∧
          name ∉ visibleAfter b.scopes.visible 0 s.history := by
  refine ⟨fun s stem => ⟨fun names hnames hname => ?_, s.finds_freeName stem⟩,
    fun b cs hscopes hcs => ⟨?_, ?_⟩⟩
  · exact s.freeName_not_mem stem (List.mem_flatten.mpr ⟨names, hnames, hname⟩)
  · obtain ⟨s, -, hs, -⟩ := (Session.tracks_start hscopes).run (cs.append_nil.symm ▸ hcs)
    exact ⟨s, hs⟩
  · rintro before stem after rfl
    obtain ⟨s, depth, hs, htracks, -⟩ := (Session.tracks_start hscopes).run hcs
    obtain ⟨b', hb', -⟩ := htracks.fresh stem
    have hvisible := htracks.visible 0 depth.zero_le
    exact ⟨s, _, b', hs, hb', hvisible, hvisible ▸ s.buffer.scopes.freeName_not_mem stem⟩

/-- A text inside of two blocks of another one. -/
def nestedBuffer : Buffer := { Buffer.empty with scopes := [["tmp1"], ["tmp", "tmp0"]] }

/-- Fresh names before, inside of and after a block. -/
def freshCommands : List NameCommand :=
  [.fresh "tmp", .openBlock Buffer.defaultHeader, .declare "tmp3", .fresh "tmp", .fresh "tmp1",
    .closeBlock Buffer.defaultFooter "\n", .fresh "tmp"]

/-- The last of the fresh names is one that was declared in the block that has been ended. -/
theorem freshNames_free_nested :
    nestedBuffer.scopes ≠ [] ∧ endsOwnBlocks 0 freshCommands = true ∧
      ∃ s b', runNames ⟨[], nestedBuffer⟩ (freshCommands.take 6) = some s ∧
        s.buffer.fresh? "tmp" = some ("tmp3", b') ∧
        "tmp3" ∉ visibleAfter nestedBuffer.scopes.visible 0 s.history := by
  have hscopes : nestedBuffer.scopes ≠ [] := by decide
  have hcs : endsOwnBlocks 0 freshCommands = true := by decide
  obtain ⟨s, name, b', hs, hb', -, hfree⟩ :=
    (freshNames_free.2 nestedBuffer freshCommands hscopes hcs).2 (freshCommands.take 6) "tmp" [] rfl
  have hname : ((runNames ⟨[], nestedBuffer⟩ (freshCommands.take 6)).bind fun s =>
      s.buffer.fresh? "tmp").map Prod.fst = some "tmp3" := by
    decide +kernel
  rw [hs, Option.bind_some, hb'] at hname
  obtain rfl : name = "tmp3" := Option.some.inj hname
  exact ⟨hscopes, hcs, s, b', hs, hb', hfree⟩

end Elementary.Source
