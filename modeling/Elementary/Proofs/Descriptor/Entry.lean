import Elementary.Descriptor.File
import Elementary.Proofs.Computation
import Elementary.Proofs.Document.Json
import Elementary.Proofs.Polynomial.Basic
import Mathlib.Data.List.Nodup

/-!
# Entries of descriptor files read back

An entry stands for a descriptor when its texts are literals of the descriptor's numbers. Laid out
as a map and brought through JSON, and laid out as a record, it gives that descriptor again: the
fields are found under their names, whatever texts they hold, and the degrees, which JSON writes as
texts, are read as integers.

## Main definitions

* `Descriptor.FitEntry.StandsFor`, `Descriptor.TestEntry.StandsFor`: the entries of a descriptor.
* `Descriptor.Entry.StandsFor`: either of these.

## Main results

* `Descriptor.FitEntry.IsRegular.isExact`, `Descriptor.isExact_toMap_test`: entries are held exactly
  by JSON.
* `Descriptor.Entry.StandsFor.ofMap`, `Descriptor.Entry.StandsFor.ofRecord`: the two layouts.
* `Descriptor.Format.read_write`: a file of entries.
-/

namespace Elementary

namespace Descriptor

/-! ### Entries and what they stand for -/

/-- The coefficients of an entry by increasing degree. -/
def FitEntry.sorted (e : FitEntry) : List (Int × String) :=
  e.coefficients.mergeSort fun a b => decide (a.1 ≤ b.1)

/-- An entry of a fit is **regular** when its degrees are different and can be shown, and its error
is of the kind that is kept. -/
structure FitEntry.IsRegular (e : FitEntry) : Prop where
  distinct : (e.coefficients.map Prod.fst).Nodup
  showable : ∀ p ∈ e.coefficients, Text.isShowable p.1.natAbs = true
  errorKind : e.errorKind = .text Descriptor.errorKind

/-- An entry **stands for a fit** when it is regular and its texts denote the numbers of the fit. -/
structure FitEntry.StandsFor (e : FitEntry) (f : Descriptor.Fit) : Prop where
  regular : e.IsRegular
  coefficients : List.Forall₂ (fun p p' => p.1 = p'.1 ∧ Literal.rational p.2 = .ok p'.2)
    e.sorted f.polynomial.coefficients
  function : f.function = .text e.function
  target : f.target = .text e.target
  degrees : f.degrees = e.degrees
  parity : Parity.ofName e.parity = .ok f.parity
  interval : List.Forall₂ (fun s q => Literal.rational s = .ok q) e.interval f.interval
  error : Literal.rational e.error = .ok f.error

/-- An entry **stands for a test** when its texts denote the numbers of the test. -/
structure TestEntry.StandsFor (e : TestEntry) (t : Descriptor.Test) : Prop where
  name : t.name = .text e.name
  maxError : Literal.rational e.maxError = .ok t.maxError
  mode : t.mode = .text e.mode
  interval : List.Forall₂ (fun s q => Literal.rational s = .ok q) e.interval t.interval
  sampleCount : t.sampleCount = e.sampleCount
  numberType : t.numberType = .text e.numberType

/-- An entry **stands for a descriptor**. -/
def Entry.StandsFor : Entry → Descriptor → Prop
  | .fit e, .fit f => e.StandsFor f
  | .test e, .test t => e.StandsFor t
  | _, _ => False

namespace FitEntry

variable {e : FitEntry} {f : Descriptor.Fit}

theorem sorted_perm (e : FitEntry) : e.sorted.Perm e.coefficients := List.mergeSort_perm _ _

theorem IsRegular.nodup_sorted (h : e.IsRegular) : (e.sorted.map Prod.fst).Nodup :=
  (e.sorted_perm.map Prod.fst).nodup_iff.mpr h.distinct

theorem IsRegular.showable_sorted (h : e.IsRegular) :
    ∀ p ∈ e.sorted, Text.isShowable p.1.natAbs = true := fun p hp =>
  h.showable p (e.sorted_perm.mem_iff.mp hp)

/-- The degrees of the fit's polynomial are those of the entry. -/
theorem StandsFor.degrees_eq (h : e.StandsFor f) :
    f.polynomial.coefficients.map Prod.fst = e.sorted.map Prod.fst := by
  have hsame := h.coefficients
  generalize e.sorted = ps at hsame
  generalize f.polynomial.coefficients = qs at hsame
  induction hsame with
  | nil => rfl
  | cons hp _ ih => rw [List.map_cons, List.map_cons, ih, hp.1]

/-- The fit's polynomial is that of its monomials. -/
theorem StandsFor.ofList_eq (h : e.StandsFor f) :
    Polynomial.ofList f.polynomial.coefficients = f.polynomial :=
  congrArg Polynomial.mk (Polynomial.ofList_coefficients (h.degrees_eq ▸ h.regular.nodup_sorted))

end FitEntry

/-! ### The parts of a layout -/

/-- The elements of a list of integers are the integers. -/
theorem integers_integerList (ns : List Int) : integers (integerList ns) = .ok ns := by
  refine bind_eq_ok.mpr ⟨_, rfl, mapM_eq_ok.mpr ?_⟩
  induction ns with
  | nil => exact .nil
  | cons n ns ih => exact .cons rfl ih

/-- The elements of a list of literals are what they denote. -/
theorem rationals_textList {texts : List String} {qs : List Rat}
    (h : List.Forall₂ (fun s q => Literal.rational s = .ok q) texts qs) :
    rationals (textList texts) = .ok qs := by
  refine bind_eq_ok.mpr ⟨_, rfl, mapM_eq_ok.mpr ?_⟩
  induction h with
  | nil => exact .nil
  | cons hs _ ih => exact .cons hs ih

theorem plain_integerList (ns : List Int) : Json.plain (integerList ns) = integerList ns := by
  rw [integerList, Json.plain, Json.plainItems_eq_map, List.map_map]
  rfl

theorem plain_textList (texts : List String) : Json.plain (textList texts) = textList texts := by
  rw [textList, Json.plain, Json.plainItems_eq_map, List.map_map]
  rfl

theorem plainEntries_entry (name : String) (v : Document) (es : List (Document × Document)) :
    Json.plainEntries (entry name v :: es) = entry name (Json.plain v) :: Json.plainEntries es := by
  rw [entry, Json.plainEntries, Json.key_text, String.ofList_toList, entry]

theorem plainEntries_coefficientMap (e : FitEntry) :
    Json.plainEntries e.coefficientMap =
      e.sorted.map fun p => (.text (toString p.1), .text p.2) := by
  rw [FitEntry.coefficientMap, FitEntry.sorted]
  generalize e.coefficients.mergeSort _ = ps
  induction ps with
  | nil => rfl
  | cons p ps ih =>
    rw [List.map_cons, List.map_cons, Json.plainEntries, ih, Json.plain_text, Json.key_integer,
      String.ofList_toList]

/-- **The coefficients** come back through JSON, their degrees written as texts. -/
theorem FitEntry.IsRegular.coefficientsOf_eq {e : FitEntry} (h : e.IsRegular) :
    Entry.coefficientsOf (.map (Json.plainEntries e.coefficientMap)) = .ok e.sorted := by
  rw [plainEntries_coefficientMap]
  refine bind_eq_ok.mpr ⟨e.sorted, mapM_eq_ok.mpr ?_, ?_⟩
  · rw [List.forall₂_map_left_iff, List.forall₂_same]
    intro p hp
    exact bind_eq_ok.mpr ⟨p.1, Literal.integer_toString (h.showable_sorted p hp), rfl⟩
  · exact congrArg Except.ok (Polynomial.ofList_coefficients h.nodup_sorted)

/-! ### The layout with the kind in a field -/

theorem map_shown_text (texts : List String) :
    (texts.map Document.text).map Document.shown = texts := by
  rw [List.map_map]
  exact (List.map_congr_left fun _ _ => rfl).trans (List.map_id texts)

/-- The layout of a fit as JSON holds it. -/
theorem plain_toMap_fit (e : FitEntry) (hkind : e.errorKind = .text Descriptor.errorKind) :
    Json.plain (Entry.fit e).toMap = .map
      [entry "approx_data" (.map (Json.plainEntries e.coefficientMap)),
        entry "approx_error"
          (.map [entry "type" (.text Descriptor.errorKind), entry "value" (.text e.error)]),
        entry "approx_params"
          (.map [entry "degree_list" (integerList e.degrees), entry "parity" (.text e.parity)]),
        entry "class" (.text fitTag),
        entry "function" (.text e.function),
        entry "interval" (textList e.interval),
        entry "target" (.text e.target)] := by
  simp only [Entry.toMap, hkind, Json.plain_map, plainEntries_entry, plain_integerList,
    plain_textList, Json.plain_text, Json.plainEntries_nil]

/-- The layout of a test as JSON holds it. -/
theorem plain_toMap_test (e : TestEntry) :
    Json.plain (Entry.test e).toMap = (Entry.test e).toMap := by
  simp only [Entry.toMap, Json.plain_map, plainEntries_entry, plain_textList, Json.plain_text,
    Json.plain_integer, Json.plainEntries_nil]

theorem FitEntry.IsRegular.fitOfMap_eq {e : FitEntry} (h : e.IsRegular) :
    Entry.fitOfMap (Json.plain (Entry.fit e).toMap) = .ok { e with coefficients := e.sorted } := by
  rw [plain_toMap_fit e h.errorKind]
  refine bind_eq_ok.mpr ⟨_, rfl, bind_eq_ok.mpr ⟨_, h.coefficientsOf_eq, ?_⟩⟩
  refine bind_eq_ok.mpr ⟨.text e.function, rfl, bind_eq_ok.mpr ⟨.text e.target, rfl, ?_⟩⟩
  refine bind_eq_ok.mpr ⟨_, rfl, bind_eq_ok.mpr ⟨integerList e.degrees, rfl, ?_⟩⟩
  refine bind_eq_ok.mpr ⟨_, rfl, bind_eq_ok.mpr ⟨.text e.parity, rfl, ?_⟩⟩
  refine bind_eq_ok.mpr ⟨textList e.interval, rfl, bind_eq_ok.mpr ⟨_, rfl, ?_⟩⟩
  refine bind_eq_ok.mpr ⟨.text Descriptor.errorKind, rfl, bind_eq_ok.mpr ⟨.text e.error, rfl, ?_⟩⟩
  refine bind_eq_ok.mpr ⟨_, integers_integerList e.degrees, bind_eq_ok.mpr ⟨_, rfl, ?_⟩⟩
  rw [h.errorKind, map_shown_text]
  rfl

theorem testOfMap_eq (e : TestEntry) :
    Entry.testOfMap (Json.plain (Entry.test e).toMap) = .ok e := by
  rw [plain_toMap_test]
  refine bind_eq_ok.mpr ⟨.text e.name, rfl, bind_eq_ok.mpr ⟨.text e.maxError, rfl, ?_⟩⟩
  refine bind_eq_ok.mpr ⟨.text e.mode, rfl, bind_eq_ok.mpr ⟨textList e.interval, rfl, ?_⟩⟩
  refine bind_eq_ok.mpr ⟨.integer e.sampleCount, rfl, bind_eq_ok.mpr ⟨.text e.numberType, rfl, ?_⟩⟩
  refine bind_eq_ok.mpr ⟨_, rfl, bind_eq_ok.mpr ⟨e.sampleCount, rfl, ?_⟩⟩
  rw [map_shown_text]
  rfl

/-- **The texts of a fit** are read as its numbers. -/
theorem FitEntry.StandsFor.exact_eq {e : FitEntry} {f : Descriptor.Fit} (h : e.StandsFor f) :
    Entry.exact (.fit { e with coefficients := e.sorted }) = .ok (.fit f) := by
  have hcoefficients : e.sorted.mapM (fun m => do return (m.1, ← Literal.rational m.2)) =
      .ok f.polynomial.coefficients :=
    mapM_eq_ok.mpr (h.coefficients.imp fun p p' hp => bind_eq_ok.mpr ⟨p'.2, hp.2, by rw [hp.1]; rfl⟩)
  refine bind_eq_ok.mpr ⟨_, hcoefficients, bind_eq_ok.mpr ⟨_, h.parity, ?_⟩⟩
  refine bind_eq_ok.mpr ⟨_, mapM_eq_ok.mpr h.interval, ?_⟩
  refine bind_eq_ok.mpr ⟨(), by rw [h.regular.errorKind]; rfl, bind_eq_ok.mpr ⟨_, h.error, ?_⟩⟩
  rw [h.ofList_eq, ← h.function, ← h.target, ← h.degrees]
  rfl

/-- **The texts of a test** are read as its numbers. -/
theorem TestEntry.StandsFor.exact_eq {e : TestEntry} {t : Descriptor.Test} (h : e.StandsFor t) :
    Entry.exact (.test e) = .ok (.test t) := by
  refine bind_eq_ok.mpr ⟨_, h.maxError, bind_eq_ok.mpr ⟨_, mapM_eq_ok.mpr h.interval, ?_⟩⟩
  rw [← h.name, ← h.mode, ← h.sampleCount, ← h.numberType]
  rfl

theorem ofMap_fit {d : Document} (hkind : d.field "class" = .ok (.text fitTag)) :
    Entry.ofMap d = Entry.fit <$> Entry.fitOfMap d := by
  rw [Entry.ofMap, hkind]
  rfl

theorem ofMap_test {d : Document} (hkind : d.field "class" = .ok (.text testTag)) :
    Entry.ofMap d = Entry.test <$> Entry.testOfMap d := by
  rw [Entry.ofMap, hkind]
  rfl

/-- **A regular entry of a fit** comes back through JSON with its coefficients sorted. -/
theorem FitEntry.IsRegular.ofMap_eq {e : FitEntry} (h : e.IsRegular) :
    Entry.ofMap (Json.plain (Entry.fit e).toMap) =
      .ok (.fit { e with coefficients := e.sorted }) := by
  have hkind : (Json.plain (Entry.fit e).toMap).field "class" = .ok (.text fitTag) := by
    rw [plain_toMap_fit e h.errorKind]
    rfl
  rw [ofMap_fit hkind, h.fitOfMap_eq]
  rfl

/-- **An entry of a test** comes back through JSON. -/
theorem ofMap_toMap_test (e : TestEntry) :
    Entry.ofMap (Json.plain (Entry.test e).toMap) = .ok (.test e) := by
  have hkind : (Json.plain (Entry.test e).toMap).field "class" = .ok (.text testTag) := by
    rw [plain_toMap_test]
    rfl
  rw [ofMap_test hkind, testOfMap_eq]
  rfl

/-- **An entry laid out as a map** gives its descriptor again when JSON holds it. -/
theorem Entry.StandsFor.ofMap {e : Entry} {d : Descriptor} (h : e.StandsFor d) :
    Format.json.descriptorOf (Json.plain e.toMap) = .ok d := by
  cases e with
  | fit e =>
    cases d with
    | fit f =>
      exact bind_eq_ok.mpr ⟨_, (FitEntry.StandsFor.regular h).ofMap_eq,
        FitEntry.StandsFor.exact_eq h⟩
    | test | polynomial => exact h.elim
  | test e =>
    cases d with
    | test t => exact bind_eq_ok.mpr ⟨_, ofMap_toMap_test e, TestEntry.StandsFor.exact_eq h⟩
    | fit | polynomial => exact h.elim

/-! ### The layout with the kind as tag -/

/-- **The coefficients** of a record, by increasing degree. -/
theorem FitEntry.StandsFor.polynomialOfRecord_eq {e : FitEntry} {f : Descriptor.Fit}
    (h : e.StandsFor f) :
    polynomialOfRecord (.record polynomialTag [entry "coeff_map" (.map e.coefficientMap)]) =
      .ok f.polynomial := by
  have hpairs : e.coefficientMap.mapM (fun m => do
      let c ← m.2.number.toRat
      return ((← m.1.number.toInt), c)) = .ok f.polynomial.coefficients := by
    refine mapM_eq_ok.mpr ?_
    rw [FitEntry.coefficientMap, List.forall₂_map_left_iff]
    refine h.coefficients.imp fun p p' hp => ?_
    rw [show p' = (p.1, p'.2) by rw [hp.1]]
    exact bind_eq_ok.mpr ⟨p'.2, hp.2, rfl⟩
  refine bind_eq_ok.mpr ⟨.map e.coefficientMap, rfl, bind_eq_ok.mpr ⟨_, hpairs, ?_⟩⟩
  rw [h.ofList_eq]
  rfl

/-- **A fit laid out as a record** is read as its numbers. -/
theorem FitEntry.StandsFor.fitOfRecord_eq {e : FitEntry} {f : Descriptor.Fit} (h : e.StandsFor f) :
    fitOfRecord (Entry.fit e).toRecord = .ok f := by
  have herror : errorOfRecord (.record errorTag
      [entry "error_type" e.errorKind, entry "error_value" (.text e.error)]) = .ok f.error := by
    rw [h.regular.errorKind]
    exact h.error
  refine bind_eq_ok.mpr ⟨_, rfl, bind_eq_ok.mpr ⟨_, h.polynomialOfRecord_eq, ?_⟩⟩
  refine bind_eq_ok.mpr ⟨.text e.function, rfl, bind_eq_ok.mpr ⟨.text e.target, rfl, ?_⟩⟩
  refine bind_eq_ok.mpr ⟨integerList e.degrees, rfl, bind_eq_ok.mpr ⟨.text e.parity, rfl, ?_⟩⟩
  refine bind_eq_ok.mpr ⟨_, h.parity, bind_eq_ok.mpr ⟨textList e.interval, rfl, ?_⟩⟩
  refine bind_eq_ok.mpr ⟨_, rationals_textList h.interval, bind_eq_ok.mpr ⟨_, rfl, ?_⟩⟩
  refine bind_eq_ok.mpr ⟨_, herror, bind_eq_ok.mpr ⟨_, integers_integerList e.degrees, ?_⟩⟩
  rw [← h.function, ← h.target, ← h.degrees]
  rfl

/-- **A test laid out as a record** is read as its numbers. -/
theorem TestEntry.StandsFor.testOfRecord_eq {e : TestEntry} {t : Descriptor.Test}
    (h : e.StandsFor t) : testOfRecord (Entry.test e).toRecord = .ok t := by
  refine bind_eq_ok.mpr ⟨.text e.name, rfl, bind_eq_ok.mpr ⟨.text e.maxError, rfl, ?_⟩⟩
  refine bind_eq_ok.mpr ⟨_, h.maxError, bind_eq_ok.mpr ⟨.text e.mode, rfl, ?_⟩⟩
  refine bind_eq_ok.mpr ⟨textList e.interval, rfl, ?_⟩
  refine bind_eq_ok.mpr ⟨_, rationals_textList h.interval, ?_⟩
  refine bind_eq_ok.mpr ⟨.integer e.sampleCount, rfl, bind_eq_ok.mpr ⟨.text e.numberType, rfl, ?_⟩⟩
  refine bind_eq_ok.mpr ⟨e.sampleCount, rfl, ?_⟩
  rw [← h.name, ← h.mode, ← h.sampleCount, ← h.numberType]
  rfl

/-- **An entry laid out as a record** gives its descriptor again. -/
theorem Entry.StandsFor.ofRecord {e : Entry} {d : Descriptor} (h : e.StandsFor d) :
    Format.yaml.descriptorOf e.toRecord = .ok d := by
  cases e with
  | fit e =>
    cases d with
    | fit f => exact congrArg (Descriptor.fit <$> ·) (FitEntry.StandsFor.fitOfRecord_eq h)
    | test | polynomial => exact h.elim
  | test e =>
    cases d with
    | test t => exact congrArg (Descriptor.test <$> ·) (TestEntry.StandsFor.testOfRecord_eq h)
    | fit | polynomial => exact h.elim

/-! ### Files -/

theorem isExact_integerList (ns : List Int) : Json.IsExact (integerList ns) := by
  refine Json.allExact_iff.mpr fun d hd => ?_
  obtain ⟨n, -, rfl⟩ := List.mem_map.mp hd
  trivial

theorem isExact_textList (texts : List String) : Json.IsExact (textList texts) := by
  refine Json.allExact_iff.mpr fun d hd => ?_
  obtain ⟨s, -, rfl⟩ := List.mem_map.mp hd
  trivial

/-- Different degrees are different texts. -/
theorem FitEntry.IsRegular.isExact_coefficientMap {e : FitEntry} (h : e.IsRegular) :
    Json.IsExact (.map e.coefficientMap) := by
  have hkeys : (e.coefficientMap.map fun entry => Json.key entry.1) =
      e.sorted.map fun p => (toString p.1).toList := by
    rw [FitEntry.coefficientMap, List.map_map]
    rfl
  have hnodup : (e.sorted.map fun p => (toString p.1).toList).Nodup := by
    have hdegrees := h.nodup_sorted
    refine List.Nodup.map_on (fun p hp p' hp' heq => ?_) (List.Nodup.of_map _ hdegrees)
    have hsame : Literal.integer (toString p.1) = Literal.integer (toString p'.1) :=
      congrArg Literal.integer (String.toList_injective heq)
    rw [Literal.integer_toString (h.showable_sorted p hp),
      Literal.integer_toString (h.showable_sorted p' hp')] at hsame
    exact List.inj_on_of_nodup_map hdegrees hp hp' (Except.ok.inj hsame)
  refine ⟨hkeys ▸ hnodup, ?_⟩
  rw [FitEntry.coefficientMap]
  generalize e.coefficients.mergeSort _ = ps
  induction ps with
  | nil => trivial
  | cons p ps ih => exact ⟨trivial, ih⟩

/-- Entries under different names have different keys. -/
theorem nodup_keys {es : List (Document × Document)} (names : List String) (hnames : names.Nodup)
    (hes : (es.map fun entry => Json.key entry.1) = names.map String.toList) :
    (es.map fun entry => Json.key entry.1).Nodup :=
  hes ▸ hnames.map_on fun _ _ _ _ h => String.toList_injective h

/-- **JSON holds a regular entry of a fit exactly**: its keys are fixed names and different
degrees. -/
theorem FitEntry.IsRegular.isExact {e : FitEntry} (h : e.IsRegular) :
    Json.IsExact (Entry.fit e).toMap := by
  have hbound : Json.IsExact (.map [entry "type" e.errorKind, entry "value" (.text e.error)]) := by
    rw [h.errorKind]
    exact ⟨nodup_keys ["type", "value"] (by decide) rfl, trivial, trivial, trivial⟩
  have hparameters : Json.IsExact
      (.map [entry "degree_list" (integerList e.degrees), entry "parity" (.text e.parity)]) :=
    ⟨nodup_keys ["degree_list", "parity"] (by decide) rfl, isExact_integerList e.degrees,
      trivial, trivial⟩
  exact ⟨nodup_keys ["approx_data", "approx_error", "approx_params", "class", "function",
      "interval", "target"] (by decide) rfl,
    h.isExact_coefficientMap, hbound, hparameters, trivial, trivial,
    isExact_textList e.interval, trivial, trivial⟩

/-- **JSON holds an entry of a test exactly**. -/
theorem isExact_toMap_test (e : TestEntry) : Json.IsExact (Entry.test e).toMap :=
  ⟨nodup_keys ["class", "error_mode", "interval", "max_ulps", "name", "num_samples",
      "number_type"] (by decide) rfl,
    trivial, trivial, isExact_textList e.interval, trivial, trivial, trivial, trivial, trivial⟩

theorem Entry.StandsFor.isExact {e : Entry} {d : Descriptor} (h : e.StandsFor d) :
    Json.IsExact e.toMap := by
  cases e with
  | fit e =>
    cases d with
    | fit f => exact (FitEntry.StandsFor.regular h).isExact
    | test | polynomial => exact h.elim
  | test e => exact isExact_toMap_test e

/-- **A file of entries** is read as the descriptors that they stand for: in JSON always, and in
YAML when the text gives the laid out records again. -/
theorem Format.read_write {es : List Entry} {ds : List Descriptor} (f : Format)
    (h : List.Forall₂ Entry.StandsFor es ds)
    (hyaml : f = .yaml → f.readDocument (f.write es) = .ok (.list (es.map f.layout))) :
    f.read (f.write es) = .ok (.many ds) := by
  cases f with
  | json =>
    have hexact : Json.IsExact (.list (es.map Entry.toMap)) := by
      refine Json.allExact_iff.mpr fun d hd => ?_
      obtain ⟨e, he, rfl⟩ := List.mem_map.mp hd
      obtain ⟨d, -, hed⟩ := exists_of_forall₂ h he
      exact Entry.StandsFor.isExact hed
    have hitems : (Json.plainItems (es.map Entry.toMap)).mapM Format.json.descriptorOf = .ok ds := by
      rw [Json.plainItems_eq_map, List.map_map]
      refine mapM_eq_ok.mpr ?_
      rw [List.forall₂_map_left_iff]
      exact h.imp fun e d hed => Entry.StandsFor.ofMap hed
    refine bind_eq_ok.mpr ⟨_, Json.read_write hexact, ?_⟩
    exact congrArg (Contents.many <$> ·) hitems
  | yaml =>
    refine bind_eq_ok.mpr ⟨_, hyaml rfl, ?_⟩
    refine congrArg (Contents.many <$> ·) (mapM_eq_ok.mpr ?_)
    rw [List.forall₂_map_left_iff]
    exact h.imp fun e d hed => Entry.StandsFor.ofRecord hed

/-- **A single entry** is read as the descriptor that it stands for. -/
theorem Format.read_writeDocument {e : Entry} {d : Descriptor} (f : Format) (h : e.StandsFor d)
    (hyaml : f = .yaml → f.readDocument (f.writeDocument (f.layout e)) = .ok (f.layout e)) :
    f.read (f.writeDocument (f.layout e)) = .ok (.single d) := by
  cases f with
  | json =>
    refine bind_eq_ok.mpr ⟨_, Json.read_write (Entry.StandsFor.isExact h), ?_⟩
    have hsingle := congrArg (Contents.single <$> ·) (Entry.StandsFor.ofMap h)
    cases e <;> exact hsingle
  | yaml =>
    refine bind_eq_ok.mpr ⟨_, hyaml rfl, ?_⟩
    have hsingle := congrArg (Contents.single <$> ·) (Entry.StandsFor.ofRecord h)
    cases e <;> exact hsingle

end Descriptor

end Elementary
