import Elementary.Proofs.Descriptor.Entry
import Elementary.Proofs.Number.Decimal

/-!
# What descriptors keep of functions and tests

The descriptors of a library are written to a file and read back. Names, degrees, parities, error
modes and number types come back as they were, and so does the exact value of every end of an
interval and of every bound, which is written as a quotient. A coefficient is written as it is
shown: it comes back as the decimal that is shown, which for a floating-point number need not be
its value. What has more digits than an integer may have to be shown or read does not get through.

## Main definitions

* `Fit.Result.IsExportable`, `TestCase.IsExportable`: what can be written and read back.
* `Descriptor.Fit.Describes`, `Descriptor.Test.Describes`: what a descriptor says.

## Main results

* `Descriptor.coefficients_exported`: the coefficients of one fit.
* `Descriptor.descriptors_exported`: the descriptors of functions and tests.
-/

namespace Elementary

open Descriptor

/-! ### What can be written and read back -/

/-- A number **fits** into a file when it has an exact value, which can be shown. -/
def Number.Fits (n : Number) : Prop := ∃ q, n.toRat = .ok q ∧ Number.isShowable q = true

/-- A fit is **exportable** when its target is an expression and every number in it fits: none has
more digits than can be shown or read. -/
structure Fit.Result.IsExportable (r : Fit.Result) : Prop where
  target : ∃ e, r.request.target = .expr e ∧ e.isShowable = true
  low : r.request.low.Fits
  high : r.request.high.Fits
  error : r.error.Fits
  coefficients : ∀ p ∈ r.polynomial.coefficients, p.2.IsKept
  degrees : ∀ p ∈ r.polynomial.coefficients, Text.isShowable p.1.natAbs = true
  distinct : (r.polynomial.coefficients.map Prod.fst).Nodup

/-- A test is **exportable** when every number in it fits. -/
structure TestCase.IsExportable (t : TestCase) : Prop where
  maxError : t.maxError.Fits
  low : Number.isShowable t.low.value = true
  high : Number.isShowable t.high.value = true
  sampleCount : Text.isShowable t.sampleCount.natAbs = true

/-! ### What a descriptor says -/

namespace Descriptor

/-- The description of a target on one line, without white space at its ends. -/
def targetLine (r : Elementary.Fit.Result) : String :=
  String.ofList (Text.strip (Elementary.Fit.targetText r.request.target).toList)

/-- A descriptor **describes a fit** behind a function of some name: all is as in the fit, but that
the coefficients are those that are shown. -/
structure Fit.Describes (f : Descriptor.Fit) (name : String) (r : Elementary.Fit.Result) : Prop where
  function : f.function = .text name
  target : f.target = .text (targetLine r)
  degrees : f.degrees = r.polynomial.degrees
  parity : f.parity = r.request.parity
  interval : ∃ low high, r.request.low.toRat = .ok low ∧ r.request.high.toRat = .ok high ∧
    f.interval = [low, high]
  error : r.error.toRat = .ok f.error
  polynomialDegrees : f.polynomial.degrees = r.polynomial.degrees
  coefficients : ∀ d c, (d, c) ∈ r.polynomial.coefficients →
    ∃ q, (d, q) ∈ f.polynomial.coefficients ∧ c.Shows q

/-- A descriptor **describes a test** when all is as in the test. -/
structure Test.Describes (d : Descriptor.Test) (t : TestCase) : Prop where
  name : d.name = .text t.name
  maxError : t.maxError.toRat = .ok d.maxError
  mode : d.mode = .text t.mode.tag
  interval : d.interval = [t.low.value, t.high.value]
  sampleCount : d.sampleCount = t.sampleCount
  numberType : d.numberType = .text t.numberType.tag

end Descriptor

/-! ### Texts of exact values -/

theorem shownRat_eq {q : Rat} (hshow : Number.isShowable q = true) :
    Number.shownRat q = .ok (Number.ratText q) := by
  rw [Number.shownRat, hshow, if_pos rfl]

theorem exactText_eq {n : Number} {q : Rat} (hq : n.toRat = .ok q)
    (hshow : Number.isShowable q = true) : exactText n = .ok (Number.ratText q) :=
  bind_eq_ok.mpr ⟨q, hq, shownRat_eq hshow⟩

theorem exactText_of_long {n : Number} {q : Rat} (hq : n.toRat = .ok q)
    (hlong : Number.isShowable q = false) : exactText n = .error (.tooManyDigits none) := by
  rw [exactText, hq, ok_bind, Number.shownRat, hlong, if_neg (by decide)]

theorem shownTarget_eq {e : Expr} (he : e.isShowable = true) :
    shownTarget (.expr e) = .ok (Elementary.Fit.targetText (.expr e)) := by
  rw [shownTarget, he, if_pos rfl]

theorem Parity.ofName_name (p : Parity) : Parity.ofName p.name = .ok p := by
  cases p <;> rfl

/-- Sorted lists with the same elements are equal. -/
theorem mergeSort_eq_of_perm {ds es : List Int} (h : ds.Perm es) :
    ds.mergeSort (fun a b => decide (a ≤ b)) = es.mergeSort (fun a b => decide (a ≤ b)) := by
  have hsorted : ∀ l : List Int,
      (l.mergeSort fun a b => decide (a ≤ b)).Pairwise fun a b => decide (a ≤ b) = true := fun l =>
    @List.pairwise_mergeSort Int (fun a b => decide (a ≤ b))
      (fun a b c hab hbc => decide_eq_true
        (Int.le_trans (of_decide_eq_true hab) (of_decide_eq_true hbc)))
      (fun a b => by simp [Int.le_total a b]) l
  refine List.Perm.eq_of_pairwise (fun a b _ _ hab hba => ?_) (hsorted ds) (hsorted es)
    (((List.mergeSort_perm ds _).trans h).trans (List.mergeSort_perm es _).symm)
  exact Int.le_antisymm (of_decide_eq_true hab) (of_decide_eq_true hba)

/-! ### One entry -/

/-- The texts of coefficients, in order. -/
def coefficientTexts (r : Fit.Result) : Except Failure (List (Int × String)) :=
  r.polynomial.coefficients.mapM fun (d, c) => do return (d, ← c.shown)

/-- **The entry of a fit**, made from its parts. -/
theorem ofResult_eq {r : Fit.Result} {texts : List (Int × String)} {e : Expr} {low high error : Rat}
    (htexts : coefficientTexts r = .ok texts) (htarget : r.request.target = .expr e)
    (hshown : e.isShowable = true) (hlow : exactText r.request.low = .ok (Number.ratText low))
    (hhigh : exactText r.request.high = .ok (Number.ratText high))
    (herror : exactText r.error = .ok (Number.ratText error)) (name : String) :
    FitEntry.ofResult name r = .ok ⟨texts, name, targetLine r, r.polynomial.degrees,
      r.request.parity.name, [Number.ratText low, Number.ratText high], .text errorKind,
      Number.ratText error⟩ := by
  have htext : shownTarget r.request.target = .ok (Elementary.Fit.targetText r.request.target) :=
    htarget ▸ shownTarget_eq hshown
  exact bind_eq_ok.mpr ⟨_, htexts, bind_eq_ok.mpr ⟨_, htext, bind_eq_ok.mpr ⟨_, hlow,
    bind_eq_ok.mpr ⟨_, hhigh, bind_eq_ok.mpr ⟨_, herror, rfl⟩⟩⟩⟩⟩

namespace Fit.Result

variable {r : Fit.Result} {low high error : Rat} {monomials : List (Int × Rat)}

/-- The entry of a fit whose numbers have these exact values. -/
def entry (r : Fit.Result) (name : String) (low high error : Rat) : FitEntry :=
  ⟨r.polynomial.coefficients.map fun p => (p.1, p.2.text), name, targetLine r,
    r.polynomial.degrees, r.request.parity.name, [Number.ratText low, Number.ratText high],
    .text errorKind, Number.ratText error⟩

/-- The descriptor of a fit whose numbers have these exact values, with a polynomial. -/
def descriptor (r : Fit.Result) (name : String) (monomials : List (Int × Rat))
    (low high error : Rat) : Descriptor.Fit :=
  ⟨⟨monomials⟩, .text name, .text (targetLine r), r.polynomial.degrees, r.request.parity,
    [low, high], error⟩

theorem map_fst_entry (name : String) : (r.entry name low high error).coefficients.map Prod.fst =
    r.polynomial.coefficients.map Prod.fst := by
  rw [entry, List.map_map]
  rfl

/-- Every text of a coefficient is read as what it shows. -/
theorem IsExportable.exists_monomials (h : r.IsExportable) (name : String) :
    ∃ monomials : List (Int × Rat), List.Forall₂
      (fun p p' => p.1 = p'.1 ∧ Literal.rational p.2 = .ok p'.2)
      (r.entry name low high error).sorted monomials := by
  refine exists_forall₂ fun p hp => ?_
  have hmem := (r.entry name low high error).sorted_perm.mem_iff.mp hp
  obtain ⟨m, hm, rfl⟩ := List.mem_map.mp hmem
  obtain ⟨-, q, hq, -⟩ := (h.coefficients m hm).rational_text
  exact ⟨(m.1, q), rfl, hq⟩

theorem IsExportable.entry_standsFor (h : r.IsExportable) (name : String)
    (hlow : Number.isShowable low = true) (hhigh : Number.isShowable high = true)
    (herror : Number.isShowable error = true)
    (hmonomials : List.Forall₂ (fun p p' => p.1 = p'.1 ∧ Literal.rational p.2 = .ok p'.2)
      (r.entry name low high error).sorted monomials) :
    (r.entry name low high error).StandsFor (r.descriptor name monomials low high error) where
  regular :=
    { distinct := map_fst_entry name ▸ h.distinct
      showable := by
        intro p hp
        obtain ⟨m, hm, rfl⟩ := List.mem_map.mp hp
        exact h.degrees m hm
      errorKind := rfl }
  coefficients := hmonomials
  function := rfl
  target := rfl
  degrees := rfl
  parity := Parity.ofName_name r.request.parity
  interval := .cons (Literal.rational_ratText hlow) (.cons (Literal.rational_ratText hhigh) .nil)
  error := Literal.rational_ratText herror

theorem IsExportable.descriptor_describes (h : r.IsExportable) (name : String)
    (hlow : r.request.low.toRat = .ok low) (hhigh : r.request.high.toRat = .ok high)
    (herror : r.error.toRat = .ok error)
    (hstands : (r.entry name low high error).StandsFor
      (r.descriptor name monomials low high error)) :
    (r.descriptor name monomials low high error).Describes name r where
  function := rfl
  target := rfl
  degrees := rfl
  parity := rfl
  interval := ⟨low, high, hlow, hhigh, rfl⟩
  error := herror
  polynomialDegrees := by
    have hperm := (r.entry name low high error).sorted_perm.map Prod.fst
    rw [map_fst_entry] at hperm
    rw [Polynomial.degrees, Polynomial.degrees, hstands.degrees_eq]
    exact mergeSort_eq_of_perm hperm
  coefficients := by
    intro d c hc
    have hmem : (d, c.text) ∈ (r.entry name low high error).sorted :=
      (r.entry name low high error).sorted_perm.mem_iff.mpr (List.mem_map.mpr ⟨(d, c), hc, rfl⟩)
    obtain ⟨⟨d', q'⟩, hq', rfl, hvalue⟩ := exists_of_forall₂ hstands.coefficients hmem
    obtain ⟨-, q, hq, hshows⟩ := (h.coefficients (d, c) hc).rational_text
    obtain rfl : q = q' := Except.ok.inj (hq.symm.trans hvalue)
    exact ⟨q, hq', hshows⟩

/-- **The entry of a fit** stands for a descriptor of the fit. -/
theorem IsExportable.exists_entry (h : r.IsExportable) (name : String) :
    ∃ e f, FitEntry.ofResult name r = .ok e ∧ e.StandsFor f ∧ f.Describes name r ∧
      (Entry.fit e).isWritable = true := by
  obtain ⟨target, htarget, hshown⟩ := h.target
  obtain ⟨low, hlow, hlowFits⟩ := h.low
  obtain ⟨high, hhigh, hhighFits⟩ := h.high
  obtain ⟨error, herror, herrorFits⟩ := h.error
  obtain ⟨monomials, hmonomials⟩ := @IsExportable.exists_monomials r low high error h name
  have hstands := h.entry_standsFor name hlowFits hhighFits herrorFits hmonomials
  refine ⟨r.entry name low high error, _, ?_, hstands,
    h.descriptor_describes name hlow hhigh herror hstands, ?_⟩
  · have hcoefficients : coefficientTexts r =
        .ok (r.polynomial.coefficients.map fun p => (p.1, p.2.text)) := by
      rw [coefficientTexts, mapM_eq_ok, List.forall₂_map_right_iff, List.forall₂_same]
      intro p hp
      exact bind_eq_ok.mpr ⟨_, (h.coefficients p hp).rational_text.1, rfl⟩
    exact ofResult_eq hcoefficients htarget hshown (exactText_eq hlow hlowFits)
      (exactText_eq hhigh hhighFits) (exactText_eq herror herrorFits) name
  · refine List.all_eq_true.mpr fun d hd => ?_
    have hmem : d ∈ r.polynomial.coefficients.map Prod.fst :=
      (List.mergeSort_perm _ _).mem_iff.mp hd
    obtain ⟨p, hp, rfl⟩ := List.mem_map.mp hmem
    exact h.degrees p hp

end Fit.Result

/-- An end of the interval with too many digits keeps the entry of a fit from being made. -/
theorem ofResult_of_long {r : Fit.Result} {high : Number} {q : Rat} (h : r.IsExportable)
    (hq : high.toRat = .ok q) (hlong : Number.isShowable q = false) (name : String) :
    FitEntry.ofResult name { r with request := { r.request with high := high } } =
      .error (.tooManyDigits none) := by
  obtain ⟨target, htarget, hshown⟩ := h.target
  obtain ⟨low, hlow, hlowFits⟩ := h.low
  obtain ⟨texts, htexts⟩ : ∃ texts, r.polynomial.coefficients.mapM
      (fun p : Int × Number => do return (p.1, ← p.2.shown)) = .ok texts :=
    exists_mapM_eq_ok fun p hp =>
      ⟨(p.1, p.2.text), bind_eq_ok.mpr ⟨_, (h.coefficients p hp).rational_text.1, rfl⟩⟩
  have htext : shownTarget r.request.target = .ok _ := htarget ▸ shownTarget_eq hshown
  simp only [FitEntry.ofResult, htexts, htext, exactText_eq hlow hlowFits,
    exactText_of_long hq hlong]
  rfl

/-- **The entry of a test** stands for a descriptor of the test. -/
theorem TestCase.IsExportable.exists_entry {t : TestCase} (h : t.IsExportable) :
    ∃ e d, TestEntry.ofTestCase t = .ok e ∧ e.StandsFor d ∧ d.Describes t ∧
      (Entry.test e).isWritable = true := by
  obtain ⟨maxError, hmax, hmaxFits⟩ := h.maxError
  refine ⟨⟨t.name, Number.ratText maxError, t.mode.tag,
      [Number.ratText t.low.value, Number.ratText t.high.value], t.sampleCount, t.numberType.tag⟩,
    ⟨.text t.name, maxError, .text t.mode.tag, [t.low.value, t.high.value], t.sampleCount,
      .text t.numberType.tag⟩, ?_, ?_, ⟨rfl, hmax, rfl, rfl, rfl, rfl⟩, ?_⟩
  · exact bind_eq_ok.mpr ⟨_, exactText_eq hmax hmaxFits, bind_eq_ok.mpr
      ⟨_, shownRat_eq h.low, bind_eq_ok.mpr ⟨_, shownRat_eq h.high, rfl⟩⟩⟩
  · exact ⟨rfl, Literal.rational_ratText hmaxFits, rfl, .cons (Literal.rational_ratText h.low)
      (.cons (Literal.rational_ratText h.high) .nil), rfl, rfl⟩
  · exact List.all_eq_true.mpr fun n hn => List.mem_singleton.mp hn ▸ h.sampleCount

namespace Descriptor

/-! ### One fit by itself -/

/-- **Coefficients come back as they are shown.** The descriptor of a fit, written by itself in
JSON, is read as a polynomial with the degrees of the fit's, and each coefficient is the number that
its text shows, which is the coefficient itself unless it is a floating-point number. The same holds
in YAML, if reading the laid out entry undoes writing it. -/
theorem coefficients_exported {r : Elementary.Fit.Result} (hr : r.IsExportable) (name : String) :
    ∃ e, FitEntry.ofResult name r = .ok e ∧ ∀ f : Format,
      (f = .yaml → f.readDocument (f.writeDocument (f.layout (.fit e))) = .ok (f.layout (.fit e))) →
      ∃ d : Descriptor.Fit, f.read (f.writeDocument (f.layout (.fit e))) = .ok (.single (.fit d)) ∧
        d.polynomial.degrees = r.polynomial.degrees ∧
        ∀ m c, (m, c) ∈ r.polynomial.coefficients → ∃ q, (m, q) ∈ d.polynomial.coefficients ∧
          c.Shows q ∧ (c.IsExact → c.toRat = .ok q) := by
  obtain ⟨e, d, he, hstands, hdescribes, -⟩ := hr.exists_entry name
  refine ⟨e, he, fun f hyaml => ⟨d, f.read_writeDocument hstands hyaml,
    hdescribes.polynomialDegrees, fun m c hc => ?_⟩⟩
  obtain ⟨q, hq, hshows⟩ := hdescribes.coefficients m c hc
  exact ⟨q, hq, hshows, hshows.toRat_eq⟩

/-- The double that is nearest to a tenth. -/
def tenth : Number := .double (.finite false (3602879701896397 / 36028797018963968))

/-- The identity on an interval, fitted by that double. -/
def tenthFit : Elementary.Fit.Result where
  request := ⟨.expr (.node (.var "x" none) []), "x", 1, .integer 0, .integer 1, .none, 30⟩
  polynomial := ⟨[(0, tenth)]⟩
  error := .ratio (1 / 1000)
  levelled := .ratio (1 / 1000)
  iterations := 1

/-- Small numbers fit. -/
theorem fits_of_toRat {n : Number} {q : Rat} (hq : n.toRat = .ok q)
    (hnum : q.num.natAbs < 10 ^ 4) (hden : q.den < 10 ^ 4) : n.Fits := by
  have hlimit : 4 ≤ Text.digitLimit := by decide
  generalize hk : Text.digitLimit = k at hlimit
  have hle : 10 ^ 4 ≤ 10 ^ k := Nat.pow_le_pow_right (by omega) hlimit
  refine ⟨q, hq, ?_⟩
  rw [Number.isShowable, Bool.and_eq_true, Text.isShowable, Text.isShowable, decide_eq_true_eq,
    decide_eq_true_eq, Nat.pow_eq, hk]
  exact ⟨Nat.lt_of_lt_of_le hnum hle, Nat.lt_of_lt_of_le hden hle⟩

theorem tenth_text : tenth.text = "0.1" := by
  decide +kernel

theorem tenth_toRat : tenth.toRat = .ok (3602879701896397 / 36028797018963968) := rfl

/-- The text of that double shows a tenth. -/
theorem eq_of_shows_tenth {q : Rat} (h : tenth.Shows q) : q = 1 / 10 :=
  h.trans (by decide +kernel)

theorem tenthFit_isExportable : tenthFit.IsExportable where
  target := ⟨_, rfl, rfl⟩
  low := fits_of_toRat rfl (by decide) (by decide)
  high := fits_of_toRat rfl (by decide) (by decide)
  error := fits_of_toRat rfl (by decide +kernel) (by decide +kernel)
  coefficients := by
    intro p hp
    obtain rfl := List.mem_singleton.mp hp
    refine ⟨⟨_, tenth_toRat⟩, fun _ => Number.noConfusion, ?_⟩
    intro p hp
    rw [tenth_text] at hp
    cases hp
    rfl
  degrees := by
    intro p hp
    obtain rfl := List.mem_singleton.mp hp
    decide +kernel
  distinct := List.nodup_singleton 0

/-- The tenth comes back as the decimal that is shown. -/
theorem coefficients_exported_tenthFit :
    tenthFit.IsExportable ∧ ∃ e, FitEntry.ofResult "f" tenthFit = .ok e ∧
      ∃ d : Descriptor.Fit,
        Format.json.read (Json.write (Entry.fit e).toMap) = .ok (.single (.fit d)) ∧
          (0, 1 / 10) ∈ d.polynomial.coefficients := by
  obtain ⟨e, he, hread⟩ := coefficients_exported tenthFit_isExportable "f"
  obtain ⟨d, hd, -, hcoefficients⟩ := hread .json fun h => by cases h
  obtain ⟨q, hq, hshows, -⟩ := hcoefficients 0 tenth List.mem_cons_self
  obtain rfl : q = 1 / 10 := eq_of_shows_tenth hshows
  exact ⟨tenthFit_isExportable, e, he, d, hd, hq⟩

/-- The double that is nearest to a tenth **does not come back**: the coefficient that is read is
another number. -/
theorem tenthFit_not_exact :
    ∃ e, FitEntry.ofResult "f" tenthFit = .ok e ∧ ∃ d : Descriptor.Fit,
      Format.json.read (Json.write (Entry.fit e).toMap) = .ok (.single (.fit d)) ∧
        ∃ c q, (0, c) ∈ tenthFit.polynomial.coefficients ∧ (0, q) ∈ d.polynomial.coefficients ∧
          c.isFinite = .ok true ∧ c.toRat ≠ .ok q := by
  obtain ⟨e, d, he, hstands, hdescribes, -⟩ := tenthFit_isExportable.exists_entry "f"
  obtain ⟨q, hq, hshows⟩ := hdescribes.coefficients 0 tenth List.mem_cons_self
  have hread := @Format.read_writeDocument (.fit e) (.fit d) .json hstands fun h => by cases h
  have hexact : tenth.toRat ≠ .ok q := by
    rw [tenth_toRat, eq_of_shows_tenth hshows, Ne, Except.ok.injEq]
    decide +kernel
  exact ⟨e, he, d, hread, tenth, q, List.mem_cons_self, hq, rfl, hexact⟩

/-! ### Files -/

/-- The fits behind functions with the names of the functions, in order. -/
def namedFits (functions : List GeneratedFunction) : List (String × Elementary.Fit.Result) :=
  functions.flatMap fun f => f.fits.map fun r => (f.name, r)

/-- Descriptors with entries that stand for them, one for each of some things. -/
theorem exists_entries {α δ : Type} {as : List α} {entryOf : α → Except Failure Entry}
    {toDescriptor : δ → Descriptor} {R : α → δ → Prop}
    (h : ∀ a ∈ as, ∃ e d, entryOf a = .ok e ∧ e.StandsFor (toDescriptor d) ∧ R a d ∧
      e.isWritable = true) :
    ∃ es ds, as.mapM entryOf = .ok es ∧ List.Forall₂ Entry.StandsFor es (ds.map toDescriptor) ∧
      List.Forall₂ R as ds ∧ es.all Entry.isWritable = true := by
  induction as with
  | nil => exact ⟨[], [], rfl, .nil, .nil, rfl⟩
  | cons a as ih =>
    obtain ⟨e, d, he, hstands, hR, hwritable⟩ := h a List.mem_cons_self
    obtain ⟨es, ds, hes, hall, hRs, hwritables⟩ := ih fun b hb => h b (List.mem_cons_of_mem a hb)
    refine ⟨e :: es, d :: ds, ?_, .cons hstands hall, .cons hR hRs, ?_⟩
    · rw [List.mapM_cons]
      exact bind_eq_ok.mpr ⟨e, he, bind_eq_ok.mpr ⟨es, hes, rfl⟩⟩
    · rw [List.all_cons, hwritable, hwritables]
      rfl

/-- **The entries of functions and tests** stand for descriptors of their fits, function by
function, and of the tests behind them. -/
theorem exists_list {functions : List GeneratedFunction} {tests : List TestCase}
    (hfits : ∀ f ∈ functions, ∀ r ∈ f.fits, r.IsExportable)
    (htests : ∀ t ∈ tests, t.IsExportable) :
    ∃ es fs ts, Entry.list functions tests = .ok es ∧
      List.Forall₂ Entry.StandsFor es (fs.map .fit ++ ts.map .test) ∧
      List.Forall₂ (fun p (f : Descriptor.Fit) => f.Describes p.1 p.2) (namedFits functions) fs ∧
      List.Forall₂ (fun t (d : Descriptor.Test) => d.Describes t) tests ts := by
  have hfit : ∀ p ∈ namedFits functions, ∃ e f,
      Entry.fit <$> FitEntry.ofResult p.1 p.2 = .ok e ∧ e.StandsFor (.fit f) ∧
        f.Describes p.1 p.2 ∧ e.isWritable = true := by
    intro p hp
    obtain ⟨g, hg, hp⟩ := List.mem_flatMap.mp hp
    obtain ⟨r, hr, rfl⟩ := List.mem_map.mp hp
    obtain ⟨e, f, he, hstands, hdescribes, hwritable⟩ := (hfits g hg r hr).exists_entry g.name
    exact ⟨.fit e, f, congrArg (Entry.fit <$> ·) he, hstands, hdescribes, hwritable⟩
  have htest : ∀ t ∈ tests, ∃ e d, Entry.test <$> TestEntry.ofTestCase t = .ok e ∧
      e.StandsFor (.test d) ∧ d.Describes t ∧ e.isWritable = true := by
    intro t ht
    obtain ⟨e, d, he, hstands, hdescribes, hwritable⟩ := (htests t ht).exists_entry
    exact ⟨.test e, d, congrArg (Entry.test <$> ·) he, hstands, hdescribes, hwritable⟩
  obtain ⟨es, fs, hes, hall, hdescribe, hwritable⟩ := exists_entries hfit
  obtain ⟨es', ts, hes', hall', hdescribe', hwritable'⟩ := exists_entries htest
  refine ⟨es ++ es', fs, ts, ?_, List.rel_append hall hall', hdescribe, hdescribe'⟩
  refine bind_eq_ok.mpr ⟨es, hes, bind_eq_ok.mpr ⟨es', hes', ?_⟩⟩
  exact if_pos (by rw [List.all_append, hwritable, hwritable']; rfl)

/-- **Descriptors come back.** Functions and tests whose numbers fit have entries; a JSON file of
the entries holds one descriptor for every fit, function by function, and then one for every test,
and each of them describes its fit or its test. A YAML file holds the same descriptors, if reading
the laid out entries undoes writing them. -/
theorem descriptors_exported {functions : List GeneratedFunction} {tests : List TestCase}
    (hfits : ∀ f ∈ functions, ∀ r ∈ f.fits, r.IsExportable)
    (htests : ∀ t ∈ tests, t.IsExportable) :
    ∃ es fs ts, Entry.list functions tests = .ok es ∧
      List.Forall₂ (fun p (f : Descriptor.Fit) => f.Describes p.1 p.2) (namedFits functions) fs ∧
      List.Forall₂ (fun t (d : Descriptor.Test) => d.Describes t) tests ts ∧
      Format.json.read (Format.json.write es) = .ok (.many (fs.map .fit ++ ts.map .test)) ∧
      (Yaml.read tags (Yaml.write (.list (es.map Entry.toRecord))) =
          .ok (.list (es.map Entry.toRecord)) →
        Format.yaml.read (Format.yaml.write es) = .ok (.many (fs.map .fit ++ ts.map .test))) := by
  obtain ⟨es, fs, ts, hes, hstands, hdescribe, hdescribe'⟩ := exists_list hfits htests
  refine ⟨es, fs, ts, hes, hdescribe, hdescribe', Format.json.read_write hstands ?_, fun hyaml =>
    Format.yaml.read_write hstands fun _ => hyaml⟩
  intro h
  cases h

/-- A library of one function and one test. -/
def tenthFunction : GeneratedFunction :=
  ⟨"f", ⟨.double, false⟩, ["x"], [.node .result [.node (.var "x" none) []]], 1, [tenthFit]⟩

/-- A test of that function on an interval around zero. -/
def tenthTest : TestCase where
  name := "f"
  reference := .node (.var "x" none) []
  candidate := .node (.functionCall "f") [.node (.var "x" none) []]
  maxError := .integer 2
  low := ⟨.node (.fromBits (some (.binary .double)))
    [.node (.bitPattern 0xbfe0000000000000) []], -1 / 2⟩
  high := ⟨.node (.fromBits (some (.binary .double)))
    [.node (.bitPattern 0x3fe0000000000000) []], 1 / 2⟩
  numberType := ⟨.double, false⟩
  mode := .absolute
  sampleCount := 1000
  argument := "x"
  low_lt_high := by decide +kernel

theorem tenthTest_isExportable : tenthTest.IsExportable :=
  ⟨fits_of_toRat rfl (by decide) (by decide), by decide +kernel, by decide +kernel,
    by decide +kernel⟩

/-- The descriptors of that library. -/
theorem descriptors_exported_tenth :
    (∀ f ∈ [tenthFunction], ∀ r ∈ f.fits, r.IsExportable) ∧
      (∀ t ∈ [tenthTest], t.IsExportable) ∧
      ∃ es f t, Entry.list [tenthFunction] [tenthTest] = .ok es ∧
        Format.json.read (Format.json.write es) = .ok (.many [.fit f, .test t]) ∧
        f.degrees = [0] ∧ f.interval = [0, 1] ∧ f.error = 1 / 1000 ∧ t.maxError = 2 ∧
        t.interval = [-1 / 2, 1 / 2] ∧ t.sampleCount = 1000 := by
  have hfits : ∀ f ∈ [tenthFunction], ∀ r ∈ f.fits, r.IsExportable := by
    intro f hf r hr
    obtain rfl := List.mem_singleton.mp hf
    obtain rfl := List.mem_singleton.mp hr
    exact tenthFit_isExportable
  have htests : ∀ t ∈ [tenthTest], t.IsExportable := fun t ht =>
    List.mem_singleton.mp ht ▸ tenthTest_isExportable
  obtain ⟨es, fs, ts, hes, hdescribe, hdescribe', hread, -⟩ := descriptors_exported hfits htests
  refine ⟨hfits, htests, es, ?_⟩
  obtain _ | ⟨hf, _ | _⟩ := hdescribe
  obtain _ | ⟨ht, _ | _⟩ := hdescribe'
  obtain ⟨low, high, hlow, hhigh, hinterval⟩ := hf.interval
  obtain rfl : 0 = low := Except.ok.inj hlow
  obtain rfl : 1 = high := Except.ok.inj hhigh
  exact ⟨_, _, hes, hread, hf.degrees.trans (by decide +kernel), hinterval,
    (Except.ok.inj hf.error).symm, (Except.ok.inj ht.maxError).symm, ht.interval, ht.sampleCount⟩

/-- The same fit with an end of the interval that has one digit too many. -/
def longFit : Elementary.Fit.Result :=
  { tenthFit with
    request := { tenthFit.request with high := .integer (10 ^ Text.digitLimit : Nat) } }

/-- **A number with too many digits** keeps the descriptors from being written. -/
theorem list_longFit :
    Entry.list [{ tenthFunction with fits := [longFit] }] [] = .error (.tooManyDigits none) := by
  have hshow : Number.isShowable ((10 ^ Text.digitLimit : Nat) : Int) = false := by
    rw [Number.isShowable, Rat.num_intCast, Int.natAbs_natCast, Text.isShowable, Nat.pow_eq,
      decide_eq_false (Nat.lt_irrefl _), Bool.false_and]
  have hentry : FitEntry.ofResult "f" longFit = .error (.tooManyDigits none) :=
    ofResult_of_long tenthFit_isExportable
      (show longFit.request.high.toRat = .ok (((10 ^ Text.digitLimit : Nat) : Int) : Rat) from rfl)
      hshow "f"
  have hstep : Entry.fit <$> FitEntry.ofResult "f" longFit = .error (.tooManyDigits none) := by
    rw [hentry]
    rfl
  have hfits : namedFits [{ tenthFunction with fits := [longFit] }] = [("f", longFit)] := rfl
  rw [Entry.list, ← namedFits, hfits, List.mapM_cons]
  simp only [hstep, error_bind]

/-- The same fit with a truth value as coefficient. -/
def truthFit : Elementary.Fit.Result := { tenthFit with polynomial := ⟨[(0, .truth true)]⟩ }

/-- **A truth value** as coefficient is written, but what is written is no literal. -/
theorem read_truthFit :
    ∃ es, Entry.list [{ tenthFunction with fits := [truthFit] }] [] = .ok es ∧
      Format.json.read (Format.json.write es) = .error (.badLiteral "True") := by
  obtain ⟨low, hlow, hlowFits⟩ := tenthFit_isExportable.low
  obtain ⟨high, hhigh, hhighFits⟩ := tenthFit_isExportable.high
  obtain ⟨error, herror, herrorFits⟩ := tenthFit_isExportable.error
  have hresult := @ofResult_eq truthFit [(0, "True")] _ low high error rfl rfl rfl
    (exactText_eq hlow hlowFits) (exactText_eq hhigh hhighFits) (exactText_eq herror herrorFits) "f"
  generalize he : FitEntry.mk [(0, "True")] "f" (targetLine truthFit) truthFit.polynomial.degrees
    truthFit.request.parity.name [Number.ratText low, Number.ratText high] (.text errorKind)
    (Number.ratText error) = e at hresult
  have hcoefficients : e.coefficients = [(0, "True")] := he ▸ rfl
  have hregular : e.IsRegular :=
    { distinct := by rw [hcoefficients]; exact List.nodup_singleton 0
      showable := by
        intro p hp
        rw [hcoefficients] at hp
        obtain rfl := List.mem_singleton.mp hp
        decide +kernel
      errorKind := he ▸ rfl }
  have hsorted : e.sorted = [(0, "True")] := by
    rw [FitEntry.sorted, hcoefficients, List.mergeSort_singleton]
  have hdescriptor : Format.json.descriptorOf (Json.plain (Entry.fit e).toMap) =
      .error (.badLiteral "True") := by
    change Entry.ofMap _ >>= Entry.exact = _
    rw [hregular.ofMap_eq, ok_bind, hsorted]
    rfl
  have hlist : Entry.list [{ tenthFunction with fits := [truthFit] }] [] = .ok [.fit e] := by
    have hfits : namedFits [{ tenthFunction with fits := [truthFit] }] = [("f", truthFit)] := rfl
    have hentries : [("f", truthFit)].mapM (fun f => Entry.fit <$> FitEntry.ofResult f.1 f.2) =
        .ok [.fit e] := mapM_eq_ok.mpr (.cons (congrArg (Entry.fit <$> ·) hresult) .nil)
    refine bind_eq_ok.mpr ⟨_, hfits ▸ hentries, bind_eq_ok.mpr ⟨[], rfl, if_pos ?_⟩⟩
    have hdegrees : e.degrees = [0] := by
      rw [← he]
      exact List.mergeSort_singleton 0
    rw [List.append_nil, List.all_cons, Entry.isWritable, Entry.writtenIntegers, hdegrees]
    decide +kernel
  refine ⟨_, hlist, ?_⟩
  have hdocument : Json.IsExact (.list [(Entry.fit e).toMap]) := ⟨hregular.isExact, trivial⟩
  have hread : Format.json.readDocument (Format.json.write [.fit e]) =
      .ok (.list [Json.plain (Entry.fit e).toMap]) := Json.read_write hdocument
  rw [Format.read, hread, ok_bind]
  change Contents.many <$> [Json.plain (Entry.fit e).toMap].mapM Format.json.descriptorOf = _
  rw [List.mapM_cons, hdescriptor, error_bind]
  rfl

/-- All numbers of a fit have an exact value. -/
def HasExactValues (r : Elementary.Fit.Result) : Prop :=
  ∀ n ∈ r.request.low :: r.request.high :: r.error :: r.polynomial.coefficients.map Prod.snd,
    ∃ q, n.toRat = .ok q

/-- **Finite numbers are not enough**: one with too many digits keeps the descriptors from being
written, and a truth value as coefficient keeps them from being read. -/
theorem not_exported :
    (HasExactValues longFit ∧
      Entry.list [{ tenthFunction with fits := [longFit] }] [] = .error (.tooManyDigits none)) ∧
    HasExactValues truthFit ∧
      ∃ es, Entry.list [{ tenthFunction with fits := [truthFit] }] [] = .ok es ∧
        Format.json.read (Format.json.write es) = .error (.badLiteral "True") := by
  have hlong : HasExactValues longFit := by
    rw [HasExactValues, List.forall_mem_cons, List.forall_mem_cons, List.forall_mem_cons]
    exact ⟨⟨_, rfl⟩, ⟨_, rfl⟩, ⟨_, rfl⟩, fun n hn => List.mem_singleton.mp hn ▸ ⟨_, tenth_toRat⟩⟩
  have htruth : HasExactValues truthFit := by
    rw [HasExactValues, List.forall_mem_cons, List.forall_mem_cons, List.forall_mem_cons]
    exact ⟨⟨_, rfl⟩, ⟨_, rfl⟩, ⟨_, rfl⟩, fun n hn => List.mem_singleton.mp hn ▸ ⟨1, rfl⟩⟩
  exact ⟨⟨hlong, list_longFit⟩, htruth, read_truthFit⟩

end Descriptor

end Elementary
