import Elementary.Polynomial.Basic
import Elementary.Proofs.Computation
import Mathlib.Data.List.Nodup
import Mathlib.Data.List.Pairwise

/-!
# Monomials of different degrees

A polynomial is built from its monomials one after the other. A monomial takes the place of an
earlier one of its degree; when all degrees are different, none takes the place of another. The
degrees of a parity increase, so this is so for the monomials of a fit.

## Main results

* `Polynomial.nodup_ofList`: the degrees of a polynomial are different.
* `Polynomial.forall_ofList`: what holds of the coefficients it is built from holds of its own.
* `Polynomial.ofList_coefficients`: the coefficients of a polynomial are those it is built from.
* `Polynomial.degrees_ofList_zip`: a polynomial with the degrees of a parity has these degrees.
-/

namespace Elementary

namespace Polynomial

variable {κ : Type} {P : κ → Prop} {d : Int} {c : κ} {ms : List (Int × κ)}

theorem insert_eq_append (h : d ∉ ms.map Prod.fst) : insert d c ms = ms ++ [(d, c)] := by
  induction ms with
  | nil => rfl
  | cons m ms ih =>
    obtain ⟨d', c'⟩ := m
    rw [List.map_cons, List.mem_cons, not_or] at h
    rw [insert, if_neg h.1, ih h.2, List.cons_append]

/-- **Monomials of different degrees** are the coefficients of their polynomial. -/
theorem ofList_coefficients (h : (ms.map Prod.fst).Nodup) : (ofList ms).coefficients = ms := by
  have hnew : ∀ {acc : List (Int × κ)} {m}, (∀ b ∈ acc, b.1 ≠ m.1) →
      insert m.1 m.2 acc = acc ++ [m] := fun {acc m} hm =>
    insert_eq_append fun hd => by
      obtain ⟨b, hb, heq⟩ := List.mem_map.mp hd
      exact hm b hb heq
  exact @foldl_eq_append _ _ _ hnew ms [] (List.pairwise_map.mp h)

theorem insert_degrees_of_mem (h : d ∈ ms.map Prod.fst) :
    (insert d c ms).map Prod.fst = ms.map Prod.fst := by
  induction ms with
  | nil => cases h
  | cons m ms ih =>
    obtain ⟨d', c'⟩ := m
    rw [insert]
    split
    · next heq => rw [List.map_cons, List.map_cons, heq]
    · next hne => rw [List.map_cons, List.map_cons, ih (List.mem_of_ne_of_mem hne h)]

theorem nodup_insert (h : (ms.map Prod.fst).Nodup) : ((insert d c ms).map Prod.fst).Nodup := by
  by_cases hd : d ∈ ms.map Prod.fst
  · rwa [insert_degrees_of_mem hd]
  · rw [insert_eq_append hd, List.map_append, List.map_singleton, ← List.concat_eq_append]
    exact h.concat hd

/-- **Every polynomial that is built** has different degrees. -/
theorem nodup_ofList (ms : List (Int × κ)) : ((ofList ms).coefficients.map Prod.fst).Nodup :=
  List.foldlRecOn (motive := fun cs : List (Int × κ) => (cs.map Prod.fst).Nodup) ms _
    List.nodup_nil fun _ h _ _ => nodup_insert h

theorem forall_insert (hc : P c) (h : ∀ m ∈ ms, P m.2) : ∀ m ∈ insert d c ms, P m.2 := by
  induction ms with
  | nil => exact List.forall_mem_singleton.mpr hc
  | cons m ms ih =>
    rw [List.forall_mem_cons] at h
    rw [insert]
    split
    · exact List.forall_mem_cons.mpr ⟨hc, h.2⟩
    · exact List.forall_mem_cons.mpr ⟨h.1, ih h.2⟩

/-- **The coefficients of a polynomial** are among those that it is built from. -/
theorem forall_ofList (h : ∀ m ∈ ms, P m.2) : ∀ m ∈ (ofList ms).coefficients, P m.2 :=
  List.foldlRecOn (motive := fun cs : List (Int × κ) => ∀ m ∈ cs, P m.2) ms _
    (List.forall_mem_nil _) fun _ hcs m hm => forall_insert (h m hm) hcs

end Polynomial

/-- **The degrees of a parity** increase. -/
theorem Parity.pairwise_degrees (p : Parity) (count : Nat) :
    (p.degrees count).Pairwise (· < ·) := by
  rw [degrees, List.pairwise_map]
  refine List.pairwise_lt_range.imp fun {i j} hij => ?_
  cases p <;> dsimp only <;> omega

theorem Parity.length_degrees (p : Parity) (count : Nat) : (p.degrees count).length = count := by
  rw [degrees, List.length_map, List.length_range]

namespace Polynomial

variable {κ : Type}

theorem ofList_zip_coefficients (p : Parity) (cs : List κ) :
    (ofList ((p.degrees cs.length).zip cs)).coefficients = (p.degrees cs.length).zip cs := by
  refine ofList_coefficients ?_
  rw [List.map_fst_zip (Nat.le_of_eq (p.length_degrees _))]
  exact (p.pairwise_degrees _).imp fun hlt => Int.ne_of_lt hlt

/-- **A polynomial with the degrees of a parity** has these degrees. -/
theorem degrees_ofList_zip (p : Parity) (cs : List κ) :
    (ofList ((p.degrees cs.length).zip cs)).degrees = p.degrees cs.length := by
  rw [degrees, ofList_zip_coefficients, List.map_fst_zip (Nat.le_of_eq (p.length_degrees _))]
  refine List.mergeSort_of_pairwise ?_
  exact (p.pairwise_degrees _).imp fun hlt => decide_eq_true (Int.le_of_lt hlt)

end Polynomial

end Elementary
