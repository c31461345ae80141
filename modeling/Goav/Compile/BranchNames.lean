import Goav.Compile.Branches
import Goav.Lib.Count

/-!
When the names of a recipe's branches are distinct: exactly if no derived name of a fork was also given
with `As(...)` and no numbered one is a name without a number (`NamesApart`).
-/

namespace Goav.Compile

open Goav.Lib List

/-! ### One name after others -/

def nameAfter (before : List ForkName) : ForkName → String
  | .explicit name => name
  | .derived name =>
    let count := before.countP (fun fork => fork.base = name) + 1
    if count > 1 ∧ .explicit name ∉ before then numbered name count else name

def namesFrom (before : List ForkName) : List ForkName → List String
  | [] => []
  | fork :: rest => nameAfter before fork :: namesFrom (before ++ [fork]) rest

structure NamesOf (before : List ForkName) (n : StreamBranchNames) : Prop where
  counts : ∀ name, n.counts name = before.countP (fun fork => fork.base = name)
  explicit : ∀ name, n.explicit name = true ↔ .explicit name ∈ before
  err : n.err = none → ∀ name, before.count (.explicit name) ≤ 1

section

variable {before rest : List ForkName} {n : StreamBranchNames} {fork : ForkName}

lemma NamesOf.next (h : NamesOf before n) (fork : ForkName) :
    (n.next fork).1 = nameAfter before fork ∧ NamesOf (before ++ [fork]) (n.next fork).2 := by
  cases fork with
  | explicit name =>
    refine ⟨by simp [StreamBranchNames.next, nameAfter, ForkName.base], ?_, ?_, ?_⟩
    · intro name'
      by_cases heq : name' = name
      · subst heq
        simp [StreamBranchNames.next, ForkName.base, h.counts]
      · simp [StreamBranchNames.next, ForkName.base, h.counts, heq, Ne.symm heq]
    · intro name'
      by_cases heq : name' = name
      · subst heq
        simp [StreamBranchNames.next, ForkName.base]
      · simp [StreamBranchNames.next, ForkName.base, h.explicit, heq]
    · intro herr name'
      cases hseen : n.explicit name with
      | true => simp [StreamBranchNames.next, ForkName.base, hseen] at herr
      | false =>
        simp only [StreamBranchNames.next, ForkName.base, hseen] at herr
        have hcount := h.err herr name'
        have hnot : .explicit name ∉ before := fun hmem => by
          rw [← h.explicit, hseen] at hmem
          simp at hmem
        by_cases heq : name' = name
        · subst heq
          simp [count_eq_zero_of_not_mem hnot]
        · simpa [count_singleton, Ne.symm heq] using hcount
  | derived name =>
    refine ⟨?_, ?_, ?_, ?_⟩
    · simp only [StreamBranchNames.next, nameAfter, ForkName.base, h.counts]
      by_cases hmem : ForkName.explicit name ∈ before
      · simp [hmem, (h.explicit name).mpr hmem]
      · have hfalse : n.explicit name = false := by
          simpa using mt (h.explicit name).mp hmem
        simp [hmem, hfalse]
    · intro name'
      by_cases heq : name' = name
      · subst heq
        simp [StreamBranchNames.next, ForkName.base, h.counts]
      · simp [StreamBranchNames.next, ForkName.base, h.counts, heq, Ne.symm heq]
    · intro name'
      simp [StreamBranchNames.next, h.explicit]
    · intro herr name'
      simpa using h.err herr name'

theorem NamesOf.nextAll (h : NamesOf before n) (rest : List ForkName) :
    (n.nextAll rest).1 = namesFrom before rest ∧ NamesOf (before ++ rest) (n.nextAll rest).2 := by
  induction rest generalizing before n with
  | nil => exact ⟨rfl, by simpa [StreamBranchNames.nextAll] using h⟩
  | cons fork rest ih =>
    obtain ⟨hname, hnext⟩ := h.next fork
    obtain ⟨hnames, hrest⟩ := ih hnext
    refine ⟨?_, by simpa [StreamBranchNames.nextAll] using hrest⟩
    simp [StreamBranchNames.nextAll, namesFrom, hname, hnames]

lemma namesOf_empty : NamesOf [] {} := by
  constructor <;> simp

lemma length_namesFrom : (namesFrom before rest).length = rest.length := by
  induction rest generalizing before with
  | nil => rfl
  | cons fork rest ih => simp [namesFrom, ih]

lemma getElem?_namesFrom (i : ℕ) :
    (namesFrom before rest)[i]? = rest[i]?.map (nameAfter (before ++ rest.take i)) := by
  induction rest generalizing before i with
  | nil => simp [namesFrom]
  | cons fork rest ih =>
    cases i with
    | zero => simp [namesFrom]
    | succ i => simp [namesFrom, ih]

end

/-! ### Names that stay apart -/

/-- No derived name is also given, and no name with a number is one without. -/
structure NamesApart (forks : List ForkName) : Prop where
  given : ∀ name, .derived name ∈ forks → .explicit name ∉ forks
  numbered : ∀ name k, 2 ≤ k → k ≤ forks.count (.derived name) → ∀ fork ∈ forks, fork.base ≠ numbered name k

section

variable {forks : List ForkName}

lemma countP_base {before : List ForkName} {name : String} (h : .explicit name ∉ before) :
    before.countP (fun fork => fork.base = name) = before.count (.derived name) := by
  refine countP_congr fun fork hfork => ?_
  cases fork with
  | explicit name' =>
    have hne : name' ≠ name := by
      rintro rfl
      exact h hfork
    simp [ForkName.base, hne]
  | derived name' =>
    simp only [beq_iff_eq, ForkName.derived.injEq]
    exact decide_eq_true_iff

variable {fork : ForkName} {i j : ℕ}

/-- The name of a fork: the base, or a derived name with its number. -/
lemma nameAfter_cases {before after : List ForkName} (hapart : NamesApart (before ++ fork :: after)) :
    (nameAfter before fork = fork.base ∧
      ∀ name, fork = .derived name → ∀ other ∈ before, other.base ≠ name) ∨
    ∃ name, fork = .derived name ∧ 1 ≤ before.count (.derived name) ∧
      nameAfter before fork = numbered name (before.count (.derived name) + 1) := by
  cases fork with
  | explicit name => exact .inl ⟨rfl, by simp⟩
  | derived name =>
    have hgiven : .explicit name ∉ before := fun hmem =>
      hapart.given name (by simp) (mem_append_left _ hmem)
    rw [nameAfter, countP_base hgiven]
    by_cases hcount : before.count (.derived name) = 0
    · refine .inl ⟨by simp [hcount, ForkName.base], ?_⟩
      rintro name' heq other hother rfl
      obtain rfl := (ForkName.derived.inj heq)
      rw [← countP_base hgiven, countP_eq_zero] at hcount
      simpa using hcount other hother
    · refine .inr ⟨name, rfl, Nat.one_le_iff_ne_zero.mpr hcount, ?_⟩
      exact if_pos ⟨by omega, hgiven⟩

lemma split_at (h : forks[i]? = some fork) : forks = forks.take i ++ fork :: forks.drop (i + 1) := by
  obtain ⟨hi, rfl⟩ := List.getElem?_eq_some_iff.mp h
  rw [List.cons_getElem_drop_succ, List.take_append_drop]

lemma count_take_lt (hi : forks[i]? = some fork) (hij : i < j) :
    (forks.take i).count fork < (forks.take j).count fork := by
  have hle : (forks.take (i + 1)).count fork ≤ (forks.take j).count fork :=
    (take_sublist_take_left hij).count_le fork
  rw [take_add_one, hi] at hle
  exact Nat.lt_of_succ_le (by simpa using hle)

lemma mem_take (hi : forks[i]? = some fork) (hij : i < j) : fork ∈ forks.take j :=
  count_pos_iff.mp (Nat.zero_lt_of_lt (count_take_lt hi hij))

theorem NamesApart.nodup (h : NamesApart forks)
    (hexplicit : ∀ name, forks.count (.explicit name) ≤ 1) : (namesFrom [] forks).Nodup := by
  rw [nodup_iff_getElem?_ne_getElem?]
  intro i j hij hj heq
  rw [length_namesFrom] at hj
  obtain ⟨fork', hfork'⟩ : ∃ fork', forks[j]? = some fork' := ⟨_, getElem?_eq_getElem hj⟩
  obtain ⟨fork, hfork⟩ : ∃ fork, forks[i]? = some fork :=
    ⟨_, getElem?_eq_getElem (hij.trans hj)⟩
  rw [getElem?_namesFrom, getElem?_namesFrom, hfork, hfork', nil_append, nil_append] at heq
  have hname := Option.some.inj heq
  have hmem := mem_take hfork hij
  have hfork_mem : fork ∈ forks := mem_of_getElem? hfork
  have hfork_mem' : fork' ∈ forks := mem_of_getElem? hfork'
  -- a name with a number is within the number of forks that derive it
  have hcount {k : ℕ} {name : String} (hk : forks[k]? = some (.derived name)) :
      (forks.take k).count (.derived name) + 1 ≤ forks.count (.derived name) := by
    have hlt := count_take_lt hk (List.getElem?_eq_some_iff.mp hk).1
    rwa [take_length] at hlt
  rcases nameAfter_cases (split_at hfork ▸ h) with ⟨hbase, -⟩ | ⟨name, rfl, hpos, hnumbered⟩
  · rcases nameAfter_cases (split_at hfork' ▸ h) with ⟨hbase', hfirst⟩ | ⟨name', rfl, hpos', hnumbered'⟩
    · rw [hbase, hbase'] at hname
      cases fork' with
      | derived name => exact hfirst name rfl fork hmem hname
      | explicit name =>
        cases fork with
        | derived name' =>
          obtain rfl : name' = name := hname
          exact h.given _ hfork_mem hfork_mem'
        | explicit name' =>
          obtain rfl : name' = name := hname
          have hlt := count_take_lt hfork' (List.getElem?_eq_some_iff.mp hfork').1
          rw [take_length] at hlt
          have := hexplicit name'
          have := count_pos_iff.mpr hmem
          omega
    · rw [hbase, hnumbered'] at hname
      exact h.numbered name' _ (by omega) (hcount hfork') fork hfork_mem hname
  · rcases nameAfter_cases (split_at hfork' ▸ h) with ⟨hbase', -⟩ | ⟨name', rfl, hpos', hnumbered'⟩
    · rw [hnumbered, hbase'] at hname
      exact h.numbered name _ (by omega) (hcount hfork) fork' hfork_mem' hname.symm
    · rw [hnumbered, hnumbered'] at hname
      obtain ⟨rfl, hk⟩ := numbered_inj.mp hname
      have := count_take_lt hfork hij
      omega

lemma place_eq (hnodup : (namesFrom [] forks).Nodup) {fork' : ForkName} (hi : forks[i]? = some fork)
    (hj : forks[j]? = some fork')
    (hname : nameAfter (forks.take i) fork = nameAfter (forks.take j) fork') : i = j := by
  have hget {k : ℕ} {fork : ForkName} (hk : forks[k]? = some fork) :
      (namesFrom [] forks)[k]? = some (nameAfter (forks.take k) fork) := by
    rw [getElem?_namesFrom, hk]
    rfl
  have hlt {k : ℕ} {fork : ForkName} (hk : forks[k]? = some fork) :
      k < (namesFrom [] forks).length := by
    rw [length_namesFrom]
    exact (List.getElem?_eq_some_iff.mp hk).1
  rw [nodup_iff_getElem?_ne_getElem?] at hnodup
  have heq : (namesFrom [] forks)[i]? = (namesFrom [] forks)[j]? := by rw [hget hi, hget hj, hname]
  rcases Nat.lt_trichotomy i j with hij | hij | hij
  · exact absurd heq (hnodup i j hij (hlt hj))
  · exact hij
  · exact absurd heq.symm (hnodup j i hij (hlt hi))

lemma exists_first (hfork : fork ∈ forks) :
    ∃ i first, forks[i]? = some first ∧ first.base = fork.base ∧
      (∀ other ∈ forks.take i, other.base ≠ fork.base) ∧
      nameAfter (forks.take i) first = fork.base := by
  set i := forks.findIdx (fun other => other.base = fork.base) with hi
  have hlt : i < forks.length := findIdx_lt_length_of_exists ⟨fork, hfork, by simp⟩
  have hbase : forks[i].base = fork.base := by
    simpa using findIdx_getElem (w := hlt)
  have hbefore : ∀ other ∈ forks.take i, other.base ≠ fork.base := by
    intro other hother heq
    obtain ⟨j, hj, rfl⟩ := mem_take_iff_getElem.mp hother
    have := not_of_lt_findIdx (show j < i by omega)
    simp [heq] at this
  refine ⟨i, forks[i], getElem?_eq_getElem hlt, hbase, hbefore, ?_⟩
  cases hfirst : forks[i] with
  | explicit name =>
    rw [hfirst] at hbase
    exact hbase
  | derived name =>
    rw [hfirst] at hbase
    have hnone : (forks.take i).countP (fun other => other.base = name) = 0 := by
      rw [countP_eq_zero]
      intro other hother heq
      have hname : name = fork.base := hbase
      exact hbefore other hother (by simpa [← hname] using heq)
    simp only [nameAfter, hnone]
    exact hbase

theorem namesApart_of_nodup (hnodup : (namesFrom [] forks).Nodup) : NamesApart forks := by
  have hgiven : ∀ name, .derived name ∈ forks → .explicit name ∉ forks := by
    intro name hderived hexplicit
    obtain ⟨i, first, hi, hbase, hbefore, hname⟩ := exists_first hderived
    cases first with
    | derived name' =>
      obtain ⟨j, hj⟩ := mem_iff_getElem?.mp hexplicit
      obtain rfl := place_eq hnodup hi hj hname
      rw [hi] at hj
      simp at hj
    | explicit name' =>
      obtain rfl : name' = name := hbase
      obtain ⟨j, hj⟩ := mem_iff_getElem?.mp hderived
      have hij : i ≠ j := by
        rintro rfl
        rw [hi] at hj
        simp at hj
      have hlt : i < j := by
        refine lt_of_le_of_ne (not_lt.mp fun hlt => ?_) hij
        exact hbefore _ (mem_take hj hlt) rfl
      refine hij (place_eq hnodup hi hj (hname.trans ?_))
      simp [nameAfter, mem_take hi hlt, ForkName.base]
  refine ⟨hgiven, fun name k hk hcount fork hfork hbase => ?_⟩
  obtain ⟨i, first, hi, hfirst, -, hname⟩ := exists_first hfork
  obtain ⟨j, hj, hbefore⟩ := exists_count_take (k := k - 1)
    (show k - 1 < forks.count (.derived name) by omega)
  have hderived : ForkName.derived name ∈ forks := mem_of_getElem? hj
  have hexplicit : .explicit name ∉ forks.take j := fun hmem =>
    hgiven name hderived (mem_of_mem_take hmem)
  have hname' : nameAfter (forks.take j) (.derived name) = numbered name k := by
    rw [nameAfter, countP_base hexplicit, hbefore, Nat.sub_add_cancel (by omega)]
    exact if_pos ⟨by omega, hexplicit⟩
  obtain rfl := place_eq hnodup hi hj (by rw [hname, hname', hbase])
  rw [hi] at hj
  cases hj
  exact numbered_ne name k (hbase.symm.trans hfirst.symm)

end

/-! ### The names of the branches -/

lemma loneNames_spec (taken bases : List String) :
    (loneNames taken bases).Nodup ∧ ∀ name ∈ loneNames taken bases, name ∉ taken := by
  induction bases generalizing taken with
  | nil => simp [loneNames]
  | cons base bases ih =>
    obtain ⟨hnodup, hfree⟩ := ih (firstFree taken base taken.length 2 base :: taken)
    simp only [loneNames, nodup_cons, mem_cons]
    refine ⟨⟨fun hmem => hfree _ hmem mem_cons_self, hnodup⟩, ?_⟩
    rintro name (rfl | hname)
    · exact firstFree_notMem taken base 2
    · exact fun hmem => hfree name hname (mem_cons_of_mem _ hmem)

lemma map_name_zipWith {α : Type} {branch : α → String → DerivedBranch}
    (hbranch : ∀ a name, (branch a name).name = name) {l : List α} {names : List String}
    (hlength : l.length = names.length) :
    (List.zipWith branch l names).map DerivedBranch.name = names := by
  induction l generalizing names with
  | nil => exact (eq_nil_of_length_eq_zero hlength.symm).symm
  | cons a l ih =>
    cases names with
    | nil => simp at hlength
    | cons name names => simp [hbranch, ih (Nat.succ.inj hlength)]

lemma length_loneNames (taken bases : List String) : (loneNames taken bases).length = bases.length := by
  induction bases generalizing taken with
  | nil => rfl
  | cons base bases ih => simp [loneNames, ih]

variable {req : Request} {branches : List DerivedBranch}

lemma map_name_deriveBranches (h : deriveBranches req = .ok branches) :
    branches.map DerivedBranch.name = namesFrom [] (forkNames req) ++
      loneNames (namesFrom [] (forkNames req)) ((loneRoots req).map (rootName req)) ∧
    ∀ name, (forkNames req).count (.explicit name) ≤ 1 := by
  obtain ⟨hnames, hstate⟩ := namesOf_empty.nextAll (forkNames req)
  unfold deriveBranches at h
  split at h
  · simp at h
  split at h
  · simp at h
  dsimp only at h
  split at h
  · simp at h
  rename_i herr
  cases h
  refine ⟨?_, fun name => by simpa using hstate.err herr name⟩
  rw [hnames, map_append, map_name_zipWith (fun _ _ => rfl), map_name_zipWith (fun _ _ => rfl)]
  · rw [length_loneNames, length_map]
  · rw [length_namesFrom, forkNames, length_map]

theorem nodup_names_iff (h : deriveBranches req = .ok branches) :
    (branches.map DerivedBranch.name).Nodup ↔ NamesApart (forkNames req) := by
  obtain ⟨hnames, hexplicit⟩ := map_name_deriveBranches h
  obtain ⟨hlone, hfree⟩ := loneNames_spec (namesFrom [] (forkNames req)) ((loneRoots req).map (rootName req))
  rw [hnames, nodup_append']
  constructor
  · exact fun hnodup => namesApart_of_nodup hnodup.1
  · exact fun hapart => ⟨hapart.nodup hexplicit, hlone, fun name hfork hname => hfree name hname hfork⟩

end Goav.Compile
