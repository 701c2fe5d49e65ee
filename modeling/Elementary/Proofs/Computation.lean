import Elementary.Log.Basic
import Mathlib.Data.List.Chain
import Mathlib.Data.List.Forall2

/-!
# Computations with a state

Messages and transformations are computations of one kind: they change a state, and they may fail,
the state being kept when they do. What such a computation does is said by `Ends`: run from a
state, it gives a value that is right together with the last state, or a failure that is right
together with the last state. A long computation is taken apart by one rule for each of its steps.

## Main results

* `Ends.bind`: a computation that goes on after another one.
* `Ends.mono`: a weaker description.
* `Ends.tryCatch`: a computation whose failure is caught.
* `bind_eq_ok`, `mapM_eq_ok`: computations without a state that give a value.
* `Settles.bind`: a computation without a state that goes on after another one.
-/

namespace Elementary

variable {σ α β : Type}

/-- A **computation with a state** that may fail. -/
abbrev Computation (σ α : Type) := ExceptT Failure (StateM σ) α

namespace Computation

/-- The result or the failure of a computation from a state, and the last state. -/
def runFrom (x : Computation σ α) (s : σ) : Except Failure α × σ :=
  StateT.run (ExceptT.run x) s

/-- **How a computation ends**: with a value and a last state that satisfy `Q`, or with a failure
and a last state that satisfy `E`. -/
def Ends (x : Computation σ α) (s : σ) (Q : α → σ → Prop) (E : Failure → σ → Prop) : Prop :=
  match x.runFrom s with
  | (.ok a, s') => Q a s'
  | (.error f, s') => E f s'

variable {x : Computation σ α} {g : α → Computation σ β} {s : σ}
  {Q Q' : α → σ → Prop} {R : β → σ → Prop} {E E' : Failure → σ → Prop}

/-! ### Single steps -/

@[simp] theorem runFrom_get (s : σ) :
    runFrom (get : Computation σ σ) s = (.ok s, s) := rfl

@[simp] theorem runFrom_modify (h : σ → σ) (s : σ) :
    runFrom (modify h : Computation σ PUnit) s = (.ok ⟨⟩, h s) := rfl

/-- A computation goes on from the state in which the first part left it, and stops when that
part fails. -/
theorem runFrom_bind (x : Computation σ α) (g : α → Computation σ β) (s : σ) :
    runFrom (x >>= g) s =
      match x.runFrom s with
      | (.ok a, s') => (g a).runFrom s'
      | (.error f, s') => (.error f, s') := by
  have hrun : runFrom (x >>= g) s = ExceptT.bindCont g (x.runFrom s).1 (x.runFrom s).2 := rfl
  rw [hrun]
  rcases x.runFrom s with ⟨f | a, s'⟩ <;> rfl

/-- The same when the first part is known to give a value. -/
theorem runFrom_bind_ok {a : α} {s' : σ} (h : x.runFrom s = (.ok a, s')) :
    runFrom (x >>= g) s = (g a).runFrom s' := by
  rw [runFrom_bind, h]

/-- The same when the first part is known to fail. -/
theorem runFrom_bind_error {f : Failure} {s' : σ} (h : x.runFrom s = (.error f, s')) :
    runFrom (x >>= g) s = (.error f, s') := by
  rw [runFrom_bind, h]

/-- **Going on** gives a value exactly when both parts do, one after the other. -/
theorem runFrom_bind_eq_ok {b : β} {s' : σ} :
    runFrom (x >>= g) s = (.ok b, s') ↔
      ∃ a s₁, x.runFrom s = (.ok a, s₁) ∧ (g a).runFrom s₁ = (.ok b, s') := by
  rw [runFrom_bind]
  rcases x.runFrom s with ⟨f | a, s₁⟩ <;> simp

/-- The run of a computation whose failure is caught. -/
theorem runFrom_tryCatch (x : Computation σ α) (h : Failure → Computation σ α) (s : σ) :
    runFrom (tryCatch x h) s =
      match x.runFrom s with
      | (.ok a, s') => (.ok a, s')
      | (.error f, s') => (h f).runFrom s' := by
  simp only [runFrom]
  rw [ExceptT.run_tryCatch, StateT.run_bind]
  show (match StateT.run (ExceptT.run x) s with | (r, s') => _) = _
  rcases StateT.run (ExceptT.run x) s with ⟨f | a, s'⟩ <;> rfl

/-! ### How computations end -/

/-- A computation whose run is known ends as the run says. -/
theorem Ends.of_ok {a : α} {s' : σ} (h : x.runFrom s = (.ok a, s')) (hQ : Q a s') :
    x.Ends s Q E := by
  rw [Ends, h]
  exact hQ

theorem Ends.of_error {f : Failure} {s' : σ} (h : x.runFrom s = (.error f, s')) (hE : E f s') :
    x.Ends s Q E := by
  rw [Ends, h]
  exact hE

/-- What is said about the value of a computation that gives one. -/
theorem Ends.ok {a : α} {s' : σ} (hx : x.Ends s Q E) (h : x.runFrom s = (.ok a, s')) : Q a s' := by
  rwa [Ends, h] at hx

/-- What is said about the failure of a computation that fails. -/
theorem Ends.error {f : Failure} {s' : σ} (hx : x.Ends s Q E)
    (h : x.runFrom s = (.error f, s')) : E f s' := by
  rwa [Ends, h] at hx

/-- A computation that cannot fail gives a value. -/
theorem Ends.exists_ok (hx : x.Ends s Q fun _ _ => False) :
    ∃ a s', x.runFrom s = (.ok a, s') ∧ Q a s' := by
  rcases h : x.runFrom s with ⟨f | a, s'⟩
  · exact (hx.error h).elim
  · exact ⟨a, s', rfl, hx.ok h⟩

/-- **A weaker description** of the same computation. -/
theorem Ends.mono (hx : x.Ends s Q E) (hQ : ∀ a s', Q a s' → Q' a s')
    (hE : ∀ f s', E f s' → E' f s') : x.Ends s Q' E' := by
  rcases h : x.runFrom s with ⟨f | a, s'⟩
  · exact .of_error h (hE f s' (hx.error h))
  · exact .of_ok h (hQ a s' (hx.ok h))

/-- The run itself is known of the end of a computation. -/
theorem Ends.and_run (hx : x.Ends s Q E) :
    x.Ends s (fun a s' => x.runFrom s = (.ok a, s') ∧ Q a s')
      fun f s' => x.runFrom s = (.error f, s') ∧ E f s' := by
  rcases h : x.runFrom s with ⟨f | a, s'⟩
  · exact .of_error h ⟨rfl, hx.error h⟩
  · exact .of_ok h ⟨rfl, hx.ok h⟩

/-- **Going on**: what the second part does is said for every end of the first one. -/
theorem Ends.bind (hx : x.Ends s Q E) (hg : ∀ a s', Q a s' → (g a).Ends s' R E) :
    Ends (x >>= g) s R E := by
  rcases h : x.runFrom s with ⟨f | a, s'⟩
  · exact .of_error (runFrom_bind_error h) (hx.error h)
  · have hrun := runFrom_bind_ok (g := g) h
    rw [Ends, hrun]
    exact hg a s' (hx.ok h)

theorem Ends.pure {a : α} (h : Q a s) : Ends (pure a : Computation σ α) s Q E := h

theorem Ends.throw {f : Failure} (h : E f s) : Ends (throw f : Computation σ α) s Q E := h

/-- Going on from the state as it is. -/
theorem Ends.get {g : σ → Computation σ β} (h : (g s).Ends s R E) :
    Ends (get >>= g) s R E := by
  rw [Ends, runFrom_bind_ok (runFrom_get s)]
  exact h

/-- Going on from a changed state. -/
theorem Ends.modify {h : σ → σ} {g : PUnit → Computation σ β} (hg : (g ⟨⟩).Ends (h s) R E) :
    Ends (modify h >>= g) s R E := by
  rw [Ends, runFrom_bind_ok (runFrom_modify h s)]
  exact hg

/-- **Going on after a failure** that is caught; a value is kept. -/
theorem Ends.tryCatch {h : Failure → Computation σ α} (hx : x.Ends s Q E)
    (hh : ∀ f s', E f s' → (h f).Ends s' Q E') : Ends (tryCatch x h) s Q E' := by
  rcases hcase : x.runFrom s with ⟨f | a, s'⟩
  · rw [Ends, runFrom_tryCatch, hcase]
    exact hh f s' (hx.error hcase)
  · rw [Ends, runFrom_tryCatch, hcase]
    exact hx.ok hcase

/-- A computation done for every element of a list, one after the other. -/
theorem Ends.mapM {f : α → Computation σ β} {R : α → β → Prop} {E : Failure → Prop} {as : List α}
    (h : ∀ a ∈ as, ∀ s, (f a).Ends s (fun b _ => R a b) fun g _ => E g) (s : σ) :
    Ends (as.mapM f) s (fun bs _ => List.Forall₂ R as bs) fun g _ => E g := by
  induction as generalizing s with
  | nil => exact .pure .nil
  | cons a as ih =>
    rw [List.mapM_cons]
    refine (h a List.mem_cons_self s).bind fun b s₁ hb => ?_
    refine (ih (fun a' ha' => h a' (List.mem_cons_of_mem a ha')) s₁).bind fun bs s₂ hbs => ?_
    exact .pure (.cons hb hbs)

end Computation

/-! ### Computations without a state -/

section Except

variable {x : Except Failure α} {g : α → Except Failure β} {b : β}

/-- **Going on** gives a value exactly when both parts do. -/
theorem bind_eq_ok : x >>= g = .ok b ↔ ∃ a, x = .ok a ∧ g a = .ok b := by
  cases x with
  | ok a => exact ⟨fun h => ⟨a, rfl, h⟩, fun ⟨_, ha, h⟩ => Except.ok.inj ha ▸ h⟩
  | error f =>
    refine iff_of_false (fun h => ?_) fun ⟨_, ha, _⟩ => ?_
    · cases h
    · cases ha

/-- Going on **fails** exactly when the first part does, or the second one after it. -/
theorem bind_eq_error {f : Failure} :
    x >>= g = .error f ↔ x = .error f ∨ ∃ a, x = .ok a ∧ g a = .error f := by
  cases x with
  | ok a =>
    refine ⟨fun h => Or.inr ⟨a, rfl, h⟩, ?_⟩
    rintro (h | ⟨_, ha, h⟩)
    · cases h
    · exact Except.ok.inj ha ▸ h
  | error f' =>
    constructor
    · intro h
      cases h
      exact Or.inl rfl
    · rintro (h | ⟨_, ha, -⟩)
      · cases h
        rfl
      · cases ha

/-- A computation goes on with the value of its first part. -/
theorem ok_bind (a : α) (g : α → Except Failure β) : Except.ok a >>= g = g a := rfl

/-- A computation stops when its first part fails. -/
theorem error_bind (f : Failure) (g : α → Except Failure β) :
    Except.error f >>= g = .error f := rfl

/-- **What is done to every element** of a list gives the list of what it gives for each. -/
theorem mapM_eq_ok {f : α → Except Failure β} {as : List α} {bs : List β} :
    as.mapM f = .ok bs ↔ List.Forall₂ (fun a b => f a = .ok b) as bs := by
  induction as generalizing bs with
  | nil => exact ⟨fun h => Except.ok.inj h ▸ .nil, fun h => by cases h; rfl⟩
  | cons a as ih =>
    rw [List.mapM_cons]
    constructor
    · intro h
      obtain ⟨b, hb, h⟩ := bind_eq_ok.mp h
      obtain ⟨bs, hbs, h⟩ := bind_eq_ok.mp h
      cases h
      exact .cons hb (ih.mp hbs)
    · rintro (_ | ⟨hb, hbs⟩)
      exact bind_eq_ok.mpr ⟨_, hb, bind_eq_ok.mpr ⟨_, ih.mpr hbs, rfl⟩⟩

/-- Every element of the one list has a counterpart in the other. -/
theorem exists_of_forall₂ {R : α → β → Prop} {as : List α} {bs : List β} {a : α}
    (h : List.Forall₂ R as bs) (ha : a ∈ as) : ∃ b ∈ bs, R a b := by
  induction h with
  | nil => exact absurd ha List.not_mem_nil
  | @cons a' b _ _ hb _ ih =>
    rcases List.mem_cons.mp ha with rfl | ha
    · exact ⟨b, List.mem_cons_self, hb⟩
    · obtain ⟨b', hb', hab'⟩ := ih ha
      exact ⟨b', List.mem_cons_of_mem b hb', hab'⟩

/-- Elements related to those of a list are related to **elements of it**. -/
theorem forall₂_and_mem {R : α → β → Prop} {as : List α} {bs : List β}
    (h : List.Forall₂ R as bs) : List.Forall₂ (fun a b => R a b ∧ b ∈ bs) as bs := by
  induction h with
  | nil => exact .nil
  | cons hab _ ih =>
    exact .cons ⟨hab, List.mem_cons_self⟩ (ih.imp fun _ _ h => ⟨h.1, List.mem_cons_of_mem _ h.2⟩)

/-- Relations element by element **compose**, through elements of the list between them. -/
theorem forall₂_comp {γ : Type} {R : α → β → Prop} {T : β → γ → Prop}
    {as : List α} {bs : List β} {cs : List γ} (h : List.Forall₂ R as bs) (h' : List.Forall₂ T bs cs) :
    List.Forall₂ (fun a c => ∃ b ∈ bs, R a b ∧ T b c) as cs := by
  induction h generalizing cs with
  | nil =>
    cases h'
    exact .nil
  | @cons a b as bs hab _ ih =>
    cases h' with
    | cons hbc hrest =>
      exact .cons ⟨b, List.mem_cons_self, hab, hbc⟩ ((ih hrest).imp
        fun _ _ ⟨b', hb', h⟩ => ⟨b', List.mem_cons_of_mem _ hb', h⟩)

/-- What is related element by element to a **chain** is a chain. -/
theorem isChain_of_forall₂ {R : α → β → Prop} {T : β → β → Prop} {U : α → α → Prop}
    {as : List α} {bs : List β} (h : List.Forall₂ R as bs)
    (himp : ∀ a a' b b', R a b → R a' b' → T b b' → U a a') (hchain : bs.IsChain T) :
    as.IsChain U := by
  induction h with
  | nil => exact .nil
  | @cons a b as bs hab hrest ih =>
    obtain ⟨hnext, htail⟩ := List.isChain_cons.mp hchain
    refine List.isChain_cons.mpr ⟨fun a' ha' => ?_, ih htail⟩
    cases hrest with
    | nil => cases ha'
    | @cons a'' b' as bs hab' hrest =>
      obtain rfl := Option.some.inj ha'
      exact himp a a'' b b' hab hab' (hnext b' rfl)

/-- Counterparts of all elements make a list of them. -/
theorem exists_forall₂ {R : α → β → Prop} {as : List α} (h : ∀ a ∈ as, ∃ b, R a b) :
    ∃ bs, List.Forall₂ R as bs := by
  induction as with
  | nil => exact ⟨[], .nil⟩
  | cons a as ih =>
    obtain ⟨b, hb⟩ := h a List.mem_cons_self
    obtain ⟨bs, hbs⟩ := ih fun a' ha' => h a' (List.mem_cons_of_mem a ha')
    exact ⟨b :: bs, .cons hb hbs⟩

/-- Every element has a counterpart in the list. -/
theorem exists_mem_of_mapM_eq_ok {f : α → Except Failure β} {as : List α} {bs : List β} {a : α}
    (h : as.mapM f = .ok bs) (ha : a ∈ as) : ∃ b ∈ bs, f a = .ok b :=
  exists_of_forall₂ (mapM_eq_ok.mp h) ha

/-- Everything in the result comes from an element of the list. -/
theorem exists_mem_of_mem_result {f : α → Except Failure β} {as : List α} {bs : List β} {b : β}
    (h : as.mapM f = .ok bs) (hb : b ∈ bs) : ∃ a ∈ as, f a = .ok b :=
  exists_of_forall₂ (R := fun b a => f a = .ok b) (List.Forall₂.flip (mapM_eq_ok.mp h)) hb

/-- What succeeds on every element of a list succeeds on the list. -/
theorem exists_mapM_eq_ok {f : α → Except Failure β} {as : List α}
    (h : ∀ a ∈ as, ∃ b, f a = .ok b) : ∃ bs, as.mapM f = .ok bs := by
  obtain ⟨bs, hbs⟩ := exists_forall₂ h
  exact ⟨bs, mapM_eq_ok.mpr hbs⟩

/-- Steps that always succeed can be made one after the other. -/
theorem exists_foldlM_eq_ok {f : β → α → Except Failure β} {as : List α}
    (h : ∀ a ∈ as, ∀ b, ∃ b', f b a = .ok b') (b : β) : ∃ b', as.foldlM f b = .ok b' := by
  induction as generalizing b with
  | nil => exact ⟨b, rfl⟩
  | cons a as ih =>
    obtain ⟨b₁, hb₁⟩ := h a List.mem_cons_self b
    rw [List.foldlM_cons, hb₁]
    exact ih (fun a' ha' => h a' (List.mem_cons_of_mem a ha')) b₁

/-- **How a computation without a state ends**: with a value that satisfies `Q`, or with a failure
that satisfies `E`. -/
def Settles (x : Except Failure α) (Q : α → Prop) (E : Failure → Prop) : Prop :=
  match x with
  | .ok a => Q a
  | .error f => E f

namespace Settles

variable {Q Q' : α → Prop} {R : β → Prop} {E : Failure → Prop}

theorem ok {a : α} (h : Q a) : Settles (.ok a) Q E := h

theorem error {f : Failure} (h : E f) : Settles (.error f) Q E := h

/-- Going on after a first part. -/
theorem bind (hx : Settles x Q E) (hg : ∀ a, Q a → Settles (g a) R E) :
    Settles (x >>= g) R E := by
  cases x with
  | ok a => exact hg a hx
  | error f => exact hx

/-- A weaker description of the values. -/
theorem mono (hx : Settles x Q E) (h : ∀ a, Q a → Q' a) : Settles x Q' E := by
  cases x with
  | ok a => exact h a hx
  | error f => exact hx

/-- The value itself is known of the end of a computation. -/
theorem and_eq (hx : Settles x Q E) : Settles x (fun a => x = .ok a ∧ Q a) E := by
  cases x with
  | ok a => exact ⟨rfl, hx⟩
  | error f => exact hx

/-- Something done to every element of a list. -/
theorem mapM {f : α → Except Failure β} {R : α → β → Prop} {as : List α}
    (h : ∀ a ∈ as, Settles (f a) (R a) E) : Settles (as.mapM f) (List.Forall₂ R as) E := by
  induction as with
  | nil => exact .ok .nil
  | cons a as ih =>
    rw [List.mapM_cons]
    refine (h a List.mem_cons_self).bind fun b hb => ?_
    refine (ih fun a' ha' => h a' (List.mem_cons_of_mem a ha')).bind fun bs hbs => ?_
    exact .ok (.cons hb hbs)

/-- Something done to every element of a list that may give nothing. -/
theorem filterMapM {f : α → Except Failure (Option β)} {R : α → Option β → Prop} {as : List α}
    (h : ∀ a ∈ as, Settles (f a) (R a) E) :
    Settles (as.filterMapM f) (fun bs => (∀ b ∈ bs, ∃ a ∈ as, R a (some b)) ∧
      ∀ a ∈ as, R a none ∨ ∃ b ∈ bs, R a (some b)) E := by
  induction as with
  | nil => exact .ok ⟨nofun, nofun⟩
  | cons a as ih =>
    rw [List.filterMapM_cons]
    refine (h a List.mem_cons_self).bind fun o ho => ?_
    have hrest := ih fun a' ha' => h a' (List.mem_cons_of_mem a ha')
    cases o with
    | none =>
      refine hrest.mono fun bs ⟨hfrom, hto⟩ => ⟨fun b hb => ?_, ?_⟩
      · obtain ⟨a', ha', hR⟩ := hfrom b hb
        exact ⟨a', List.mem_cons_of_mem a ha', hR⟩
      · exact List.forall_mem_cons.mpr ⟨.inl ho, hto⟩
    | some b =>
      refine hrest.bind fun bs ⟨hfrom, hto⟩ => .ok ⟨?_, ?_⟩
      · refine List.forall_mem_cons.mpr ⟨⟨a, List.mem_cons_self, ho⟩, fun b' hb' => ?_⟩
        obtain ⟨a', ha', hR⟩ := hfrom b' hb'
        exact ⟨a', List.mem_cons_of_mem a ha', hR⟩
      · refine List.forall_mem_cons.mpr ⟨.inr ⟨b, List.mem_cons_self, ho⟩, fun a' ha' => ?_⟩
        exact (hto a' ha').imp_right fun ⟨b', hb', hR⟩ => ⟨b', List.mem_cons_of_mem b hb', hR⟩

/-- Something done to every element of a list that could give nothing, but never does. -/
theorem filterMapM_some {f : α → Except Failure (Option β)} {R : β → α → Prop} {as : List α}
    (h : ∀ a ∈ as, Settles (f a) (fun o => ∃ b, o = some b ∧ R b a) E) :
    Settles (as.filterMapM f) (fun bs => List.Forall₂ R bs as) E := by
  induction as with
  | nil => exact .ok .nil
  | cons a as ih =>
    rw [List.filterMapM_cons]
    refine (h a List.mem_cons_self).bind fun o ho => ?_
    obtain ⟨b, rfl, hb⟩ := ho
    refine (ih fun a' ha' => h a' (List.mem_cons_of_mem a ha')).bind fun bs hbs => ?_
    exact .ok (.cons hb hbs)

end Settles

end Except

/-! ### Lists built by steps -/

/-- What is found under a key stands in the list. -/
theorem mem_of_lookup_eq_some {κ : Type} [BEq κ] [LawfulBEq κ] {a : α}
    {entries : List (κ × α)} {k : κ} (h : entries.lookup k = some a) : (k, a) ∈ entries := by
  obtain ⟨before, after, hsplit, -⟩ := List.lookup_eq_some_iff.mp h
  exact hsplit ▸ List.mem_append_right before List.mem_cons_self

/-- What is put behind the elements so far, one after the other, is put behind them as it is. -/
theorem foldl_eq_append {R : α → α → Prop} {step : List α → α → List α}
    (hstep : ∀ {acc a}, (∀ b ∈ acc, R b a) → step acc a = acc ++ [a]) {as : List α} :
    ∀ {acc : List α}, (acc ++ as).Pairwise R → as.foldl step acc = acc ++ as := by
  induction as with
  | nil => exact fun _ => (List.append_nil _).symm
  | cons a as ih =>
    intro acc h
    have hnew : ∀ b ∈ acc, R b a := fun b hb =>
      (List.pairwise_append.mp h).2.2 b hb a List.mem_cons_self
    rw [List.foldl_cons, hstep hnew, ih (by simpa using h), List.append_assoc]
    rfl

/-! ### Traced computations -/

namespace Traced

open Computation

variable {x : Traced α} {g : α → Traced β} {a : α} {s s' : Array Event}

/-- The outcome of a traced computation is that of its run without earlier messages. -/
theorem outcome_eq (x : Traced α) : x.outcome = (runFrom x #[]).1 := rfl

/-- A computation without messages ends as it is. -/
theorem ofExcept_ends (r : Except Failure α) (s : Array Event) :
    Ends (ofExcept r) s (fun a _ => r = .ok a) fun f _ => r = .error f := by
  cases r with
  | ok a => exact .pure rfl
  | error f => exact .throw rfl

/-- What is reported does not fail. -/
theorem report_ends (level : Level) (text : String) (s : Array Event)
    (E : Failure → Array Event → Prop) : Ends (report level text) s (fun _ _ => True) E :=
  .of_ok rfl trivial

/-- What is abandoned fails after a message. -/
theorem abort_ends (text : String) (f : Failure) (s : Array Event)
    (Q : α → Array Event → Prop) : Ends (abort text f) s Q fun g _ => g = f :=
  (report_ends _ _ _ _).bind fun _ _ _ => .throw rfl

/-- What fails with a message **fails as it does without one**. -/
theorem reported_ends {a : Except Failure α} {Q : α → Prop} {E : Failure → Prop}
    (ha : Settles a Q E) (s : Array Event) :
    Ends (reported a) s (fun v _ => Q v) fun f _ => E f := by
  cases a with
  | ok a => exact .pure ha
  | error f =>
    rw [reported]
    cases f.report? with
    | some text => exact (report_ends _ _ _ _).bind fun _ _ _ => .throw ha
    | none => exact .throw ha

/-- What goes on only if a condition holds, and is abandoned else. -/
theorem abortUnless_ends {c : Prop} [Decidable c] {text : String} {f : Failure}
    {rest : PUnit → Traced α} {Q : α → Array Event → Prop} {E : Failure → Array Event → Prop}
    (herror : ¬ c → ∀ s', E f s') (h : c → Ends (rest ⟨⟩) s Q E) :
    Ends (if c then rest ⟨⟩ else abort text f >>= fun u => rest u) s Q E := by
  split
  · next hc => exact h hc
  · next hc =>
    refine ((abort_ends text f s fun _ _ => False).mono (fun _ _ h => h) ?_).bind nofun
    rintro g s' rfl
    exact herror hc s'

/-- What goes on unless a condition holds, and is abandoned then. -/
theorem abortIf_ends {c : Prop} [Decidable c] {text : String} {f : Failure}
    {rest : PUnit → Traced α} {Q : α → Array Event → Prop} {E : Failure → Array Event → Prop}
    (herror : c → ∀ s', E f s') (h : ¬ c → Ends (rest ⟨⟩) s Q E) :
    Ends (if c then abort text f >>= fun u => rest u else rest ⟨⟩) s Q E := by
  split
  · next hc =>
    refine ((abort_ends text f s fun _ _ => False).mono (fun _ _ h => h) ?_).bind nofun
    rintro g s' rfl
    exact herror hc s'
  · next hc => exact h hc

/-- A traced computation is **steady** when the value that it gives does not depend on the messages
before it. -/
def Steady (x : Traced α) : Prop :=
  ∀ s s' a, runFrom x s = (.ok a, s') → ∀ t, ∃ t', runFrom x t = (.ok a, t')

/-- A steady computation gives its outcome after any messages. -/
theorem Steady.exists_runFrom (hx : x.Steady) (h : x.outcome = .ok a) (t : Array Event) :
    ∃ t', runFrom x t = (.ok a, t') :=
  hx #[] _ a (Prod.ext h rfl) t

/-- What a steady computation gives after some messages is its outcome. -/
theorem Steady.outcome_eq_ok (hx : x.Steady) (h : runFrom x s = (.ok a, s')) :
    x.outcome = .ok a := by
  obtain ⟨t', ht⟩ := hx s s' a h #[]
  rw [outcome_eq, ht]

theorem steady_pure (a : α) : (pure a : Traced α).Steady := fun _ _ _ h t => by
  cases h
  exact ⟨t, rfl⟩

theorem steady_throw (f : Failure) : (throw f : Traced α).Steady := fun _ _ _ h => by cases h

theorem steady_report (level : Level) (text : String) : (report level text).Steady :=
  fun _ _ _ h t => by
    cases h
    exact ⟨_, rfl⟩

/-- What runs steadily goes on steadily. -/
theorem Steady.bind (hx : x.Steady) (hg : ∀ a, (g a).Steady) : (x >>= g).Steady := by
  intro s s' b h t
  obtain ⟨a, s₁, ha, hb⟩ := runFrom_bind_eq_ok.mp h
  obtain ⟨t₁, ht₁⟩ := hx s s₁ a ha t
  obtain ⟨t', ht'⟩ := hg a s₁ s' b hb t₁
  exact ⟨t', runFrom_bind_eq_ok.mpr ⟨a, t₁, ht₁, ht'⟩⟩

theorem steady_abort (text : String) (f : Failure) : (abort text f : Traced α).Steady :=
  (steady_report _ _).bind fun _ => steady_throw f

/-- What goes on unless a condition makes it fail. -/
theorem steady_abortIf {c : Prop} [Decidable c] {text : String} {f : Failure}
    {rest : PUnit → Traced α} (h : ∀ u, (rest u).Steady) :
    (if c then abort text f >>= fun u => rest u else rest ⟨⟩).Steady := by
  split
  · exact (steady_abort text f).bind h
  · exact h ⟨⟩

theorem steady_ofExcept (r : Except Failure α) : (ofExcept r).Steady := by
  cases r with
  | ok a => exact steady_pure a
  | error f => exact steady_throw f

theorem steady_reported (r : Except Failure α) : (reported r).Steady := by
  cases r with
  | ok a => exact steady_pure a
  | error f =>
    rw [reported]
    cases f.report? with
    | none => exact steady_throw f
    | some text => exact (steady_report _ text).bind fun _ => steady_throw f

/-- Steady computations for the elements of a list, one after the other. -/
theorem steady_mapM {f : α → Traced β} (hf : ∀ a, (f a).Steady) (as : List α) :
    (as.mapM f).Steady := by
  induction as with
  | nil => exact steady_pure []
  | cons a as ih =>
    rw [List.mapM_cons]
    exact (hf a).bind fun b => ih.bind fun bs => steady_pure _

end Traced

end Elementary
