import ArithAsm.Proofs.Validation
import Mathlib.Data.List.Dedup

/-!
Selection of cases, told by positions. A pick is the position of an id together with
the position of a case that the id matches. Selection goes through all picks there
are, ordered by the id first and by the case second, so a case comes up once for each
id that matches it, however these ids overlap. An id without a pick makes it fail.
-/

namespace ArithAsm.Suite

/-- The name of the case is the id, or goes on after it with an underscore. -/
def Matches (id : Text) (c : Case) : Prop :=
  c.name = id ∨ (id ++ ("_" : Text)) <+: c.name

instance (id : Text) (c : Case) : Decidable (Matches id c) :=
  inferInstanceAs (Decidable (_ ∨ _))

/-- Some case is matched. -/
def Found (cases : List Case) (id : Text) : Prop :=
  ∃ c ∈ cases, Matches id c

instance (cases : List Case) (id : Text) : Decidable (Found cases id) :=
  inferInstanceAs (Decidable (∃ c ∈ cases, _))

structure Pick where
  idIndex : Nat
  caseIndex : Nat
  case : Case
  deriving DecidableEq

/-- An earlier id comes first, and for one id the earlier case. -/
def Pick.Before (p q : Pick) : Prop :=
  p.idIndex < q.idIndex ∨ p.idIndex = q.idIndex ∧ p.caseIndex < q.caseIndex

/-- The picks are those that there are, each once and in their order. -/
structure Picks (cases : List Case) (ids : List Text) (picks : List Pick) : Prop where
  ordered : picks.Pairwise Pick.Before
  mem_iff : ∀ p, p ∈ picks ↔ ∃ id, ids[p.idIndex]? = some id ∧
    cases[p.caseIndex]? = some p.case ∧ Matches id p.case

theorem selects_iff_matches {id : Text} {c : Case} : selects id c = true ↔ Matches id c := by
  rw [selects, Bool.or_eq_true, beq_iff_eq, List.isPrefixOf_iff_prefix]
  rfl

instance : Std.Irrefl Pick.Before where
  irrefl p h := by
    unfold Pick.Before at h
    omega

instance : Std.Antisymm Pick.Before where
  antisymm p q h h' := by
    unfold Pick.Before at h h'
    omega

/-- The indices of a list rise. -/
theorem pairwise_index_zipIdx {α : Type} (xs : List α) :
    xs.zipIdx.Pairwise fun x y => x.2 < y.2 := by
  rw [← List.pairwise_map, List.zipIdx_map_snd]
  exact List.pairwise_lt_range' 1

section Picks

variable (cases : List Case) (ids : List Text)

/-- The picks of one id. -/
def picksOf (id : Text × Nat) : List Pick :=
  (cases.zipIdx.filter fun c => selects id.1 c.1).map fun c => ⟨id.2, c.2, c.1⟩

def allPicks : List Pick :=
  ids.zipIdx.flatMap (picksOf cases)

variable {cases ids}

theorem mem_picksOf {id : Text × Nat} {p : Pick} :
    p ∈ picksOf cases id ↔
      p.idIndex = id.2 ∧ cases[p.caseIndex]? = some p.case ∧ Matches id.1 p.case := by
  rw [picksOf, List.mem_map]
  constructor
  · rintro ⟨c, hc, rfl⟩
    obtain ⟨hindex, hselects⟩ := List.mem_filter.mp hc
    exact ⟨rfl, List.mem_zipIdx_iff_getElem?.mp hindex, selects_iff_matches.mp hselects⟩
  · obtain ⟨i, j, c⟩ := p
    rintro ⟨rfl, hcase, hmatches⟩
    refine ⟨(c, j), List.mem_filter.mpr ⟨?_, selects_iff_matches.mpr hmatches⟩, rfl⟩
    exact List.mem_zipIdx_iff_getElem?.mpr hcase

variable (cases ids)

theorem pairwise_picksOf (id : Text × Nat) : (picksOf cases id).Pairwise Pick.Before := by
  rw [picksOf, List.pairwise_map]
  exact ((pairwise_index_zipIdx cases).filter _).imp fun h => .inr ⟨rfl, h⟩

theorem picks_allPicks : Picks cases ids (allPicks cases ids) where
  ordered := by
    refine List.pairwise_flatMap.mpr ⟨fun id _ => pairwise_picksOf cases id, ?_⟩
    refine (pairwise_index_zipIdx ids).imp fun hlt p hp q hq => .inl ?_
    rwa [(mem_picksOf.mp hp).1, (mem_picksOf.mp hq).1]
  mem_iff p := by
    rw [allPicks, List.mem_flatMap]
    constructor
    · rintro ⟨⟨id, i⟩, hid, hp⟩
      obtain ⟨rfl, hcase, hmatches⟩ := mem_picksOf.mp hp
      exact ⟨id, List.mem_zipIdx_iff_getElem?.mp hid, hcase, hmatches⟩
    · rintro ⟨id, hid, hcase, hmatches⟩
      refine ⟨(id, p.idIndex), List.mem_zipIdx_iff_getElem?.mpr hid, ?_⟩
      exact mem_picksOf.mpr ⟨rfl, hcase, hmatches⟩

theorem map_case_picksOf (id : Text × Nat) :
    (picksOf cases id).map Pick.case = cases.filter (selects id.1) := by
  have hcases : cases.filter (selects id.1) =
      (cases.zipIdx.map Prod.fst).filter (selects id.1) := by
    rw [List.zipIdx_map_fst]
  rw [hcases, List.filter_map, picksOf, List.map_map]
  rfl

theorem map_case_allPicks :
    (allPicks cases ids).map Pick.case = ids.flatMap fun id => cases.filter (selects id) := by
  have hids : ids.flatMap (fun id => cases.filter (selects id)) =
      (ids.zipIdx.map Prod.fst).flatMap fun id => cases.filter (selects id) := by
    rw [List.zipIdx_map_fst]
  rw [hids, List.flatMap_map, allPicks, List.map_flatMap]
  simp only [map_case_picksOf]

variable {cases ids}

theorem Picks.unique {picks picks' : List Pick} (h : Picks cases ids picks)
    (h' : Picks cases ids picks') : picks = picks' :=
  h.ordered.eq_of_mem_iff h'.ordered fun p => (h.mem_iff p).trans (h'.mem_iff p).symm

/-- A case is picked as often as an id matches it. The picks of one case and the ids
that match it are the same rising list of indices. -/
theorem Picks.countP_caseIndex {picks : List Pick} (h : Picks cases ids picks) {j : Nat} {c : Case}
    (hc : cases[j]? = some c) :
    picks.countP (·.caseIndex = j) = ids.countP (Matches · c) := by
  let column := (picks.filter (·.caseIndex = j)).map Pick.idIndex
  let matching := (ids.zipIdx.filter fun id => Matches id.1 c).map Prod.snd
  have hcolumn : column.Pairwise (· < ·) := by
    rw [List.pairwise_map]
    refine (h.ordered.filter _).imp_of_mem fun {p q} hp hq hbefore => ?_
    have hp := (List.mem_filter.mp hp).2
    have hq := (List.mem_filter.mp hq).2
    rw [decide_eq_true_eq] at hp hq
    unfold Pick.Before at hbefore
    omega
  have hmatching : matching.Pairwise (· < ·) := by
    rw [List.pairwise_map]
    exact (pairwise_index_zipIdx ids).filter _
  have hmem : ∀ i, i ∈ column ↔ i ∈ matching := by
    intro i
    simp only [column, matching, List.mem_map, List.mem_filter, decide_eq_true_eq]
    constructor
    · rintro ⟨p, ⟨hp, rfl⟩, rfl⟩
      obtain ⟨id, hid, hcase, hmatches⟩ := (h.mem_iff p).mp hp
      obtain rfl := Option.some.inj (hc.symm.trans hcase)
      exact ⟨(id, p.idIndex), ⟨List.mem_zipIdx_iff_getElem?.mpr hid, hmatches⟩, rfl⟩
    · rintro ⟨⟨id, i⟩, ⟨hid, hmatches⟩, rfl⟩
      have hid := List.mem_zipIdx_iff_getElem?.mp hid
      exact ⟨⟨i, j, c⟩, ⟨(h.mem_iff _).mpr ⟨id, hid, hc, hmatches⟩, rfl⟩, rfl⟩
  calc
    picks.countP (·.caseIndex = j) = column.length := by
      rw [List.countP_eq_length_filter, List.length_map]
    _ = matching.length := by rw [hcolumn.eq_of_mem_iff hmatching hmem]
    _ = (ids.zipIdx.map Prod.fst).countP (Matches · c) := by
      rw [List.length_map, ← List.countP_eq_length_filter, List.countP_map]
      rfl
    _ = ids.countP (Matches · c) := by rw [List.zipIdx_map_fst]

end Picks

section Select

variable {cases selected : List Case} {ids : List Text} {id : Text}

theorem selectOne_of_found (h : Found cases id) :
    selectOne cases id = .ok (cases.filter (selects id)) := by
  obtain ⟨c, hc, hmatches⟩ := h
  unfold selectOne
  split
  case h_1 hnone =>
    have hmem : c ∈ cases.filter (selects id) :=
      List.mem_filter.mpr ⟨hc, selects_iff_matches.mpr hmatches⟩
    rw [hnone] at hmem
    cases hmem
  case h_2 => rfl

theorem selectOne_of_not_found (h : ¬ Found cases id) : selectOne cases id = .error ⟨id⟩ := by
  have hnone : cases.filter (selects id) = [] := by
    rw [List.filter_eq_nil_iff]
    intro c hc hselects
    exact h ⟨c, hc, selects_iff_matches.mp hselects⟩
  rw [selectOne, hnone]

theorem mapM_selectOne_of_found (h : ∀ id ∈ ids, Found cases id) :
    ids.mapM (selectOne cases) = .ok (ids.map fun id => cases.filter (selects id)) := by
  apply Result.mapM_eq_ok
  rw [List.forall₂_map_right_iff, List.forall₂_same]
  exact fun id hid => selectOne_of_found (h id hid)

theorem mapM_selectOne_of_first {before after : List Text} (hbefore : ∀ id ∈ before, Found cases id)
    (hid : ¬ Found cases id) :
    (before ++ id :: after).mapM (selectOne cases) = .error ⟨id⟩ := by
  rw [List.mapM_append, mapM_selectOne_of_found hbefore, List.mapM_cons, selectOne_of_not_found hid]
  rfl

/-- The id is not found, and those before it are. -/
def FirstUnmatched (cases : List Case) (ids : List Text) (id : Text) : Prop :=
  ∃ before after, ids = before ++ id :: after ∧ (∀ id ∈ before, Found cases id) ∧ ¬ Found cases id

/-- Either every id is found, or there is a first one that is not. -/
theorem found_or_firstUnmatched (cases : List Case) (ids : List Text) :
    (∀ id ∈ ids, Found cases id) ∨ ∃ id, FirstUnmatched cases ids id := by
  induction ids with
  | nil => exact .inl (by simp)
  | cons id ids ih =>
      by_cases hid : Found cases id
      · rcases ih with hfound | ⟨first, before, after, rfl, hbefore, hfirst⟩
        · exact .inl (List.forall_mem_cons.mpr ⟨hid, hfound⟩)
        · have hall := List.forall_mem_cons.mpr ⟨hid, hbefore⟩
          exact .inr ⟨first, id :: before, after, rfl, hall, hfirst⟩
      · exact .inr ⟨id, [], ids, rfl, by simp, hid⟩

theorem FirstUnmatched.mem (h : FirstUnmatched cases ids id) : id ∈ ids ∧ ¬ Found cases id := by
  obtain ⟨before, after, rfl, _, hid⟩ := h
  exact ⟨List.mem_append_right before List.mem_cons_self, hid⟩

theorem select_of_found (hids : ids ≠ []) (h : ∀ id ∈ ids, Found cases id) :
    select cases ids = .ok (ids.flatMap fun id => cases.filter (selects id)) := by
  rw [select, if_neg hids, mapM_selectOne_of_found h, List.flatMap_def]
  rfl

theorem select_of_firstUnmatched (h : FirstUnmatched cases ids id) :
    select cases ids = .error ⟨id⟩ := by
  have hids : ids ≠ [] := List.ne_nil_of_mem h.mem.1
  obtain ⟨before, after, rfl, hbefore, hid⟩ := h
  rw [select, if_neg hids, mapM_selectOne_of_first hbefore hid]
  rfl

theorem select_eq_ok_iff (hids : ids ≠ []) :
    select cases ids = .ok selected ↔
      (∀ id ∈ ids, Found cases id) ∧
        selected = ids.flatMap fun id => cases.filter (selects id) := by
  constructor
  · intro h
    rcases found_or_firstUnmatched cases ids with hfound | ⟨id, hfirst⟩
    · rw [select_of_found hids hfound] at h
      exact ⟨hfound, (Except.ok.inj h).symm⟩
    · rw [select_of_firstUnmatched hfirst] at h
      cases h
  · rintro ⟨hfound, rfl⟩
    exact select_of_found hids hfound

theorem select_eq_error_iff (hids : ids ≠ []) {e : UnmatchedId} :
    select cases ids = .error e ↔ FirstUnmatched cases ids e.id := by
  constructor
  · intro h
    rcases found_or_firstUnmatched cases ids with hfound | ⟨id, hfirst⟩
    · rw [select_of_found hids hfound] at h
      cases h
    · rw [select_of_firstUnmatched hfirst] at h
      cases h
      exact hfirst
  · exact select_of_firstUnmatched

theorem exists_select_error_iff (hids : ids ≠ []) :
    (∃ e, select cases ids = .error e) ↔ ∃ id ∈ ids, ¬ Found cases id := by
  constructor
  · rintro ⟨e, h⟩
    exact ⟨e.id, ((select_eq_error_iff hids).mp h).mem⟩
  · rintro ⟨id, hid, hnot⟩
    rcases found_or_firstUnmatched cases ids with hfound | ⟨first, hfirst⟩
    · exact absurd (hfound id hid) hnot
    · exact ⟨⟨first⟩, select_of_firstUnmatched hfirst⟩

/-- Ids select independently of one another. -/
theorem select_append_eq_ok_iff {more : List Text} (hids : ids ≠ []) (hmore : more ≠ []) :
    select cases (ids ++ more) = .ok selected ↔
      ∃ first second, select cases ids = .ok first ∧ select cases more = .ok second ∧
        selected = first ++ second := by
  have hboth : ids ++ more ≠ [] := List.append_ne_nil_of_left_ne_nil hids more
  simp only [select_eq_ok_iff hids, select_eq_ok_iff hmore, select_eq_ok_iff hboth,
    List.forall_mem_append, List.flatMap_append]
  constructor
  · rintro ⟨⟨hfirst, hsecond⟩, rfl⟩
    exact ⟨_, _, ⟨hfirst, rfl⟩, ⟨hsecond, rfl⟩, rfl⟩
  · rintro ⟨_, _, ⟨hfirst, rfl⟩, ⟨hsecond, rfl⟩, rfl⟩
    exact ⟨⟨hfirst, hsecond⟩, rfl⟩

theorem WellFormed.eq_of_name_eq (h : WellFormed cases) {c c' : Case} (hc : c ∈ cases)
    (hc' : c' ∈ cases) (hname : c.name = c'.name) : c = c' :=
  List.inj_on_of_nodup_map (List.pairwise_map.mpr h.distinct) hc hc' hname

/-- Of well-formed cases each can be picked more than once, but apart from that nothing
is wrong with what is picked. -/
theorem WellFormed.dedup_of_subset (h : WellFormed cases) (hsubset : ∀ c ∈ selected, c ∈ cases) :
    WellFormed selected.dedup where
  named c hc := h.named c (hsubset c (List.mem_dedup.mp hc))
  clear c hc := h.clear c (hsubset c (List.mem_dedup.mp hc))
  distinct := by
    refine (List.nodup_dedup selected).imp_of_mem fun {c c'} hc hc' hne hname => hne ?_
    exact h.eq_of_name_eq (hsubset c (List.mem_dedup.mp hc))
      (hsubset c' (List.mem_dedup.mp hc')) hname

end Select

/-- Selection fails if and only if some id matches no case, and names the first such
id. Otherwise it gives the cases of all picks in their order, so each case as often as
an id matches it. Two lists of ids select one after the other what they select alone.
From cases that validation accepts comes nothing that it would refuse, but for the
repetitions. -/
theorem select_exact (cases : List Case) (ids : List Text) (hids : ids ≠ []) :
    ((∃ e, select cases ids = .error e) ↔ ∃ id ∈ ids, ∀ c ∈ cases, ¬ Matches id c) ∧
    (∀ e, select cases ids = .error e ↔ FirstUnmatched cases ids e.id) ∧
    (∀ selected, select cases ids = .ok selected ↔
      (∀ id ∈ ids, Found cases id) ∧
        ∃ picks, Picks cases ids picks ∧ selected = picks.map Pick.case) ∧
    (∀ picks, Picks cases ids picks → ∀ j c, cases[j]? = some c →
      picks.countP (·.caseIndex = j) = ids.countP (Matches · c)) ∧
    (∀ more selected, more ≠ [] → (select cases (ids ++ more) = .ok selected ↔
      ∃ first second, select cases ids = .ok first ∧ select cases more = .ok second ∧
        selected = first ++ second)) ∧
    (∀ selected, validate cases = .ok cases → select cases ids = .ok selected →
      (∀ c ∈ selected, c ∈ cases) ∧ validate selected.dedup = .ok selected.dedup) := by
  have hfailure : (∃ e, select cases ids = .error e) ↔ ∃ id ∈ ids, ∀ c ∈ cases, ¬ Matches id c := by
    rw [exists_select_error_iff hids]
    simp only [Found, not_exists, not_and]
  refine ⟨hfailure, fun e => select_eq_error_iff hids, ?_, fun picks h j c => h.countP_caseIndex,
    fun more selected hmore => select_append_eq_ok_iff hids hmore, ?_⟩
  · intro selected
    rw [select_eq_ok_iff hids, ← map_case_allPicks]
    have hall := picks_allPicks cases ids
    refine and_congr_right fun _ => ⟨fun h => ⟨_, hall, h⟩, ?_⟩
    rintro ⟨picks, hpicks, rfl⟩
    rw [hpicks.unique hall]
  · intro selected hvalid hselect
    have hsubset := mem_of_select hselect
    have hgood := (validate_eq_ok_iff.mp hvalid).dedup_of_subset hsubset
    exact ⟨hsubset, validate_eq_ok_iff.mpr hgood⟩

/-- The id `12` is the name of one case and begins that of another, which has an id of
its own; the name of the third only looks like it. -/
def groupedCases : List Case :=
  [⟨"120", "1", some 1, false⟩, ⟨"12_sum", "1+1", some 2, false⟩, ⟨"12", "(", none, true⟩]

theorem select_groupedCases :
    select groupedCases ["12", "12_sum"] =
      .ok [⟨"12_sum", "1+1", some 2, false⟩, ⟨"12", "(", none, true⟩,
        ⟨"12_sum", "1+1", some 2, false⟩] ∧
    (∃ picks, Picks groupedCases ["12", "12_sum"] picks ∧ picks.countP (·.caseIndex = 1) = 2) ∧
    select groupedCases ["12", "12_sum", "1", "2"] = .error ⟨"1"⟩ := by
  obtain ⟨_, _, hselected, hcount, _⟩ := select_exact groupedCases ["12", "12_sum"] (by simp)
  obtain ⟨_, herror, _⟩ := select_exact groupedCases ["12", "12_sum", "1", "2"] (by simp)
  have hselect : select groupedCases ["12", "12_sum"] = _ := rfl
  obtain ⟨_, picks, hpicks, _⟩ := (hselected _).mp hselect
  refine ⟨hselect, ⟨picks, hpicks, hcount picks hpicks 1 _ rfl⟩, (herror _).mpr ?_⟩
  exact ⟨["12", "12_sum"], ["2"], rfl, by decide, by decide⟩

end ArithAsm.Suite
