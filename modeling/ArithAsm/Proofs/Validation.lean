import ArithAsm.Proofs.Verdict
import ArithAsm.Suite.File
import Mathlib.Data.List.Sort

/-!
Validation of cases, told without its pass over the list. A list is well-formed if
its names are there and differ and every case is clear about its outcome. Validation
accepts exactly these lists, as they are. In any other list it finds one defect at each
position that has one: which, depends on the case there and on the names before it,
whether the cases with those names are in order or not.
-/

namespace ArithAsm.Suite

structure WellFormed (cases : List Case) : Prop where
  named : ∀ c ∈ cases, c.name ≠ []
  distinct : cases.Pairwise fun c c' => c.name ≠ c'.name
  clear : ∀ c ∈ cases, Clear c

/-- What is wrong with the case at a position, counted from zero. The reasons come
in this order: one of them counts only if those before it do not apply. -/
inductive Defective (cases : List Case) (i : Nat) : CaseDefect → Prop
  | unnamed {c : Case} (hc : cases[i]? = some c) (hname : c.name = []) :
      Defective cases i (.unnamed (i + 1))
  | duplicate {c : Case} (hc : cases[i]? = some c) (hname : c.name ≠ [])
      (hearlier : ∃ c' ∈ cases.take i, c'.name = c.name) :
      Defective cases i (.duplicate c.name)
  | unclear {c : Case} (hc : cases[i]? = some c) (hname : c.name ≠ [])
      (hfirst : ∀ c' ∈ cases.take i, c'.name ≠ c.name) (hclear : ¬ Clear c) :
      Defective cases i (.unclearOutcome c.name)

/-- The defects belong to the positions that have one, each to its own, in order. -/
def ReportsDefects (cases : List Case) (found : List CaseDefect) : Prop :=
  ∃ positions : List Nat, positions.Pairwise (· < ·) ∧
    (∀ i, i ∈ positions ↔ ∃ d, Defective cases i d) ∧
    List.Forall₂ (Defective cases) positions found

section Position

variable {cases : List Case} {i : Nat} {c : Case} {d : CaseDefect}

theorem Defective.exists_case (h : Defective cases i d) : ∃ c, cases[i]? = some c := by
  cases h with
  | unnamed hc _ | duplicate hc _ _ | unclear hc _ _ _ => exact ⟨_, hc⟩

theorem not_clear_iff : ¬ Clear c ↔ c.status.isNone = !c.error := by
  unfold Clear
  cases c.error <;> cases c.status.isNone <;> simp

/-- The pass over the list finds at a position what is wrong there, as long as it has
seen the names before it. -/
theorem defect?_eq_some_iff {seen : List Text} (hc : cases[i]? = some c)
    (hseen : ∀ name, name ∈ seen ↔ ∃ c' ∈ cases.take i, c'.name = name) :
    defect? seen (i + 1) c = some d ↔ Defective cases i d := by
  constructor
  · intro h
    unfold defect? at h
    split at h
    case isTrue hname => exact Option.some.inj h ▸ .unnamed hc hname
    case isFalse hname =>
      split at h
      case isTrue hmem => exact Option.some.inj h ▸ .duplicate hc hname ((hseen c.name).mp hmem)
      case isFalse hmem =>
        split at h
        case isTrue hunclear =>
          have hfirst : ∀ c' ∈ cases.take i, c'.name ≠ c.name :=
            fun c' hc' hname' => hmem ((hseen c.name).mpr ⟨c', hc', hname'⟩)
          exact Option.some.inj h ▸ .unclear hc hname hfirst (not_clear_iff.mpr hunclear)
        case isFalse => cases h
  · intro h
    unfold defect?
    cases h with
    | unnamed hc' hname =>
        obtain rfl := Option.some.inj (hc.symm.trans hc')
        rw [if_pos hname]
    | duplicate hc' hname hearlier =>
        obtain rfl := Option.some.inj (hc.symm.trans hc')
        rw [if_neg hname, if_pos ((hseen _).mpr hearlier)]
    | unclear hc' hname hfirst hclear =>
        obtain rfl := Option.some.inj (hc.symm.trans hc')
        have hmem : c.name ∉ seen := by
          intro hmem
          obtain ⟨c', hc', hname'⟩ := (hseen c.name).mp hmem
          exact hfirst c' hc' hname'
        rw [if_neg hname, if_neg hmem, if_pos (not_clear_iff.mp hclear)]

theorem Defective.unique : Relator.RightUnique (Defective cases) := by
  intro i d d' h h'
  obtain ⟨c, hc⟩ := h.exists_case
  have hiff : ∀ d, defect? ((cases.take i).map (·.name)) (i + 1) c = some d ↔
      Defective cases i d :=
    fun d => defect?_eq_some_iff hc fun name => List.mem_map
  exact Option.some.inj (((hiff d).mpr h).symm.trans ((hiff d').mpr h'))

/-- A list is well-formed if and only if no position has a defect. -/
theorem wellFormed_iff : WellFormed cases ↔ ∀ i d, ¬ Defective cases i d := by
  constructor
  · intro h i d hd
    cases hd with
    | unnamed hc hname => exact h.named _ (List.mem_of_getElem? hc) hname
    | @duplicate c hc _ hearlier =>
        obtain ⟨c', hc', hname⟩ := hearlier
        have hdrop : c ∈ cases.drop i :=
          List.mem_of_getElem? (i := 0) (by rw [List.getElem?_drop]; exact hc)
        have hsplit := h.distinct
        rw [← List.take_append_drop i cases, List.pairwise_append] at hsplit
        exact hsplit.2.2 c' hc' c hdrop hname
    | unclear hc _ _ hclear => exact hclear (h.clear _ (List.mem_of_getElem? hc))
  · intro h
    have hnamed : ∀ c ∈ cases, c.name ≠ [] := by
      intro c hc hname
      obtain ⟨i, hi⟩ := List.mem_iff_getElem?.mp hc
      exact h i _ (.unnamed hi hname)
    have hfirst : ∀ i c, cases[i]? = some c → ∀ c' ∈ cases.take i, c'.name ≠ c.name := by
      intro i c hi c' hc' hname
      exact h i _ (.duplicate hi (hnamed c (List.mem_of_getElem? hi)) ⟨c', hc', hname⟩)
    refine ⟨hnamed, ?_, ?_⟩
    · rw [List.pairwise_iff_getElem]
      intro i j hi hj hij
      exact hfirst j _ (List.getElem?_eq_getElem hj) _
        (List.mem_take_iff_getElem.mpr ⟨i, by omega, rfl⟩)
    · intro c hc
      obtain ⟨i, hi⟩ := List.mem_iff_getElem?.mp hc
      by_contra hclear
      exact h i _ (.unclear hi (hnamed c hc) (hfirst i c hi) hclear)

end Position

/-- The pass over the rest of a list, once the names in front have been seen, finds
the defects at the positions from there on. -/
theorem reports_defectsFrom (front rest : List Case) (seen : List Text)
    (hseen : ∀ name, name ∈ seen ↔ ∃ c ∈ front, c.name = name) :
    ∃ positions : List Nat, positions.Pairwise (· < ·) ∧
      (∀ i, i ∈ positions ↔ front.length ≤ i ∧ ∃ d, Defective (front ++ rest) i d) ∧
      List.Forall₂ (Defective (front ++ rest)) positions
        (defectsFrom seen (front.length + 1) rest) := by
  induction rest generalizing front seen with
  | nil =>
      refine ⟨[], .nil, ?_, .nil⟩
      intro i
      constructor
      · intro hi
        cases hi
      · rintro ⟨hi, d, hd⟩
        obtain ⟨c, hc⟩ := hd.exists_case
        rw [List.append_nil, List.getElem?_eq_none hi] at hc
        cases hc
  | cons c rest ih =>
      have hlist : front ++ c :: rest = front ++ [c] ++ rest := by simp
      have hseen' : ∀ name, name ∈ c.name :: seen ↔ ∃ c' ∈ front ++ [c], c'.name = name := by
        intro name
        rw [List.mem_cons, hseen name]
        grind
      obtain ⟨positions, hsorted, hmem, hfound⟩ := ih (front ++ [c]) (c.name :: seen) hseen'
      rw [← hlist] at hmem hfound
      rw [List.length_append, List.length_singleton] at hmem hfound
      have hhere : (front ++ c :: rest)[front.length]? = some c := by simp
      have hdefect : ∀ d, defect? seen (front.length + 1) c = some d ↔
          Defective (front ++ c :: rest) front.length d :=
        fun d => defect?_eq_some_iff hhere (by simpa using hseen)
      rw [defectsFrom]
      cases hd : defect? seen (front.length + 1) c with
      | none =>
          have hnone : ∀ d, ¬ Defective (front ++ c :: rest) front.length d := by
            intro d hdefective
            rw [(hdefect d).mpr hdefective] at hd
            cases hd
          refine ⟨positions, hsorted, ?_, hfound⟩
          intro i
          rw [hmem i]
          constructor
          · rintro ⟨hi, d, hdefective⟩
            exact ⟨by omega, d, hdefective⟩
          · rintro ⟨hi, d, hdefective⟩
            have hne : i ≠ front.length := by
              rintro rfl
              exact hnone d hdefective
            exact ⟨by omega, d, hdefective⟩
      | some d =>
          refine ⟨front.length :: positions, ?_, ?_, .cons ((hdefect d).mp hd) hfound⟩
          · refine List.pairwise_cons.mpr ⟨fun i hi => ?_, hsorted⟩
            exact ((hmem i).mp hi).1
          · intro i
            rw [List.mem_cons, hmem i]
            constructor
            · rintro (rfl | ⟨hi, hdefective⟩)
              · exact ⟨le_rfl, d, (hdefect d).mp hd⟩
              · exact ⟨by omega, hdefective⟩
            · rintro ⟨hi, hdefective⟩
              by_cases hlt : front.length < i
              · exact .inr ⟨hlt, hdefective⟩
              · exact .inl (by omega)

theorem reports_defects (cases : List Case) : ReportsDefects cases (defects cases) := by
  obtain ⟨positions, hsorted, hmem, hfound⟩ :=
    reports_defectsFrom [] cases [] (by simp)
  exact ⟨positions, hsorted, by simpa using hmem, hfound⟩

section Report

variable {cases : List Case} {found found' : List CaseDefect}

/-- A report leaves no choice. -/
theorem ReportsDefects.unique (h : ReportsDefects cases found)
    (h' : ReportsDefects cases found') : found = found' := by
  obtain ⟨positions, hsorted, hmem, hfound⟩ := h
  obtain ⟨positions', hsorted', hmem', hfound'⟩ := h'
  have hpositions : positions = positions' :=
    hsorted.eq_of_mem_iff hsorted' fun i => (hmem i).trans (hmem' i).symm
  subst hpositions
  exact Defective.unique.forall₂ hfound hfound'

theorem ReportsDefects.eq_nil_iff (h : ReportsDefects cases found) :
    found = [] ↔ WellFormed cases := by
  obtain ⟨positions, _, hmem, hfound⟩ := h
  have hnil : found = [] ↔ positions = [] := by
    rw [← List.length_eq_zero_iff, ← hfound.length_eq, List.length_eq_zero_iff]
  rw [hnil, wellFormed_iff, List.eq_nil_iff_forall_not_mem]
  simp [hmem]

end Report

theorem validate_of_eq_nil {cases : List Case} (h : defects cases = []) :
    validate cases = .ok cases := by
  unfold validate
  rw [h]

theorem validate_of_ne_nil {cases : List Case} (h : defects cases ≠ []) :
    validate cases = .error (defects cases) := by
  unfold validate
  split
  case h_1 hnone => exact absurd hnone h
  case h_2 => rfl

theorem validate_eq_ok_iff {cases : List Case} :
    validate cases = .ok cases ↔ WellFormed cases := by
  rw [← (reports_defects cases).eq_nil_iff]
  constructor
  · intro h
    by_contra hne
    rw [validate_of_ne_nil hne] at h
    cases h
  · exact validate_of_eq_nil

/-- Validation accepts a list if and only if it is well-formed, and then as it is.
Any other list it refuses with one defect for each position that has one, in their
order, and nothing else. A file is refused with the defects of the cases in it. -/
theorem validation_exact (cases : List Case) :
    (∀ accepted, validate cases = .ok accepted ↔ WellFormed cases ∧ accepted = cases) ∧
    (∀ found, validate cases = .error found ↔
      ¬ WellFormed cases ∧ ReportsDefects cases found) ∧
    ∀ t, decode t = .ok cases → ofFile t = (validate cases).mapError .defects := by
  have hreport := reports_defects cases
  have hdefects : ∀ found, found = defects cases ↔ ReportsDefects cases found :=
    fun found => ⟨fun h => h ▸ hreport, fun h => h.unique hreport⟩
  have hfile : ∀ t, decode t = .ok cases → ofFile t = (validate cases).mapError .defects := by
    intro t ht
    rw [ofFile, ht]
    rfl
  by_cases hgood : WellFormed cases
  · rw [validate_of_eq_nil (hreport.eq_nil_iff.mpr hgood)] at hfile ⊢
    exact ⟨by simp [hgood, eq_comm], by simp [hgood], hfile⟩
  · rw [validate_of_ne_nil (mt hreport.eq_nil_iff.mp hgood)] at hfile ⊢
    refine ⟨by simp [hgood], fun found => ?_, hfile⟩
    rw [← hdefects found, Except.error.injEq, eq_comm]
    simp [hgood]

/-- The second case has a name that the third repeats, though it is itself not in
order; and the first lacks a name as well as an outcome. -/
def twinText : Text :=
  "cases:\n- input: 1+1\n- name: twin\n  input: 2+2\n- name: twin\n  input: 3+3\n  status: 6\n"

def twinCases : List Case :=
  [⟨[], "1+1", none, false⟩, ⟨"twin", "2+2", none, false⟩, ⟨"twin", "3+3", some 6, false⟩]

theorem validation_exact_twinCases :
    decode twinText = .ok twinCases ∧ ¬ WellFormed twinCases ∧
    ReportsDefects twinCases [.unnamed 1, .unclearOutcome "twin", .duplicate "twin"] ∧
    ofFile twinText =
      .error (.defects [.unnamed 1, .unclearOutcome "twin", .duplicate "twin"]) := by
  have hdecode : decode twinText = .ok twinCases := by
    apply Result.eq_ok_of_toOption
    decide +kernel
  have hvalidate : validate twinCases =
      .error [.unnamed 1, .unclearOutcome "twin", .duplicate "twin"] := by
    decide
  obtain ⟨_, hrefused, hfile⟩ := validation_exact twinCases
  obtain ⟨hdefective, hreports⟩ := (hrefused _).mp hvalidate
  refine ⟨hdecode, hdefective, hreports, ?_⟩
  rw [hfile twinText hdecode, hvalidate]
  rfl

end ArithAsm.Suite
