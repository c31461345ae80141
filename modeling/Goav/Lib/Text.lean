import Mathlib.Data.Finset.Card

/-!
Names that are made of others: numbers in decimal, with and without leading zeros, and a text, a
separator and a second text in which the separator does not occur, from which both can be read back.
-/

namespace Goav.Lib

open List

theorem append_cons_inj_of_notMem {α : Type*} {x : α} {l l' r r' : List α} (hr : x ∉ r)
    (hr' : x ∉ r') (h : l ++ x :: r = l' ++ x :: r') : l = l' ∧ r = r' := by
  rcases append_eq_append_iff.mp h with ⟨between, rfl, hx⟩ | ⟨between, rfl, hx⟩
  · cases between with
    | nil => exact ⟨(append_nil _).symm, (cons.inj hx).2⟩
    | cons y between =>
      obtain ⟨rfl, rfl⟩ := cons.inj hx
      simp at hr
  · cases between with
    | nil => exact ⟨append_nil _, (cons.inj hx).2.symm⟩
    | cons y between =>
      obtain ⟨rfl, rfl⟩ := cons.inj hx
      simp at hr'

def separated (s : String) (x : Char) (t : String) : String := s ++ String.singleton x ++ t

theorem separated_inj {s s' t t' : String} {x : Char} (ht : x ∉ t.toList) (ht' : x ∉ t'.toList)
    (h : separated s x t = separated s' x t') : s = s' ∧ t = t' := by
  have hlist := congrArg String.toList h
  simp only [separated, String.toList_append, String.toList_singleton, append_assoc] at hlist
  obtain ⟨hs, ht⟩ := append_cons_inj_of_notMem ht ht' hlist
  exact ⟨String.toList_inj.mp hs, String.toList_inj.mp ht⟩

lemma length_lt_separated (s t : String) (x : Char) :
    s.toList.length < (separated s x t).toList.length := by
  simp [separated]

/-! ### Numbers -/

lemma notMem_repr {x : Char} (hx : x.isDigit = false) (n : ℕ) : x ∉ (Nat.repr n).toList := by
  rw [Nat.toList_repr]
  intro hmem
  have := Nat.isDigit_of_mem_toDigits (by omega) (by omega) hmem
  simp [hx] at this

theorem toString_inj {n n' : ℕ} (h : toString n = toString n') : n = n' := by
  have hdigits := congrArg (fun text => Nat.ofDigitChars 10 text.toList 0) h
  simpa using hdigits

def numbered (base : String) (n : ℕ) : String := separated base '-' (toString n)

theorem numbered_inj {base base' : String} {n n' : ℕ} :
    numbered base n = numbered base' n' ↔ base = base' ∧ n = n' := by
  constructor
  · intro h
    obtain ⟨hbase, hn⟩ := separated_inj (notMem_repr rfl n) (notMem_repr rfl n') h
    exact ⟨hbase, toString_inj hn⟩
  · rintro ⟨rfl, rfl⟩
    rfl

lemma numbered_ne (base : String) (n : ℕ) : numbered base n ≠ base := by
  intro h
  have := length_lt_separated base (toString n) '-'
  rw [show separated base '-' (toString n) = base from h] at this
  exact lt_irrefl _ this

def padded (width n : ℕ) : String := String.ofList ((Nat.repr n).toList.leftpad width '0')

lemma notMem_padded {x : Char} (hx : x.isDigit = false) (width n : ℕ) :
    x ∉ (padded width n).toList := by
  rw [padded, String.toList_ofList, leftpad, mem_append, mem_replicate]
  rintro (⟨-, rfl⟩ | hmem)
  · simp at hx
  · exact notMem_repr hx n hmem

theorem padded_inj {width n n' : ℕ} (h : padded width n = padded width n') : n = n' := by
  have hvalue (n : ℕ) : Nat.ofDigitChars 10 (padded width n).toList 0 = n := by
    rw [padded, leftpad, Nat.toList_repr]
    induction width - (Nat.toDigits 10 n).length with
    | zero => simp
    | succ zeros ih => simpa [replicate_succ, Nat.ofDigitChars_cons] using ih
  rw [← hvalue n, h, hvalue]

/-! ### A free name -/

/-- The first of a name and the names with a number, from `n` on, that is not taken. -/
def firstFree (taken : List String) (base : String) : ℕ → ℕ → String → String
  | 0, _, name => name
  | tries + 1, n, name =>
    if name ∈ taken then firstFree taken base tries (n + 1) (numbered base n) else name

lemma firstFree_mem {taken : List String} {base : String} {tries n : ℕ} {name : String}
    (h : firstFree taken base tries n name ∈ taken) :
    name ∈ taken ∧ ∀ k < tries, numbered base (n + k) ∈ taken := by
  induction tries generalizing n name with
  | zero => exact ⟨h, fun k hk => absurd hk (Nat.not_lt_zero k)⟩
  | succ tries ih =>
    rw [firstFree] at h
    split at h
    · rename_i hname
      obtain ⟨hnumbered, hrest⟩ := ih h
      refine ⟨hname, fun k hk => ?_⟩
      cases k with
      | zero => exact hnumbered
      | succ k =>
        rw [show n + (k + 1) = n + 1 + k by omega]
        exact hrest k (by omega)
    · exact absurd h ‹_›

theorem firstFree_notMem (taken : List String) (base : String) (n : ℕ) :
    firstFree taken base taken.length n base ∉ taken := by
  intro hmem
  obtain ⟨hbase, hnumbered⟩ := firstFree_mem hmem
  have hinj : Function.Injective fun k => numbered base (n + k) := fun k k' h => by
    have := (numbered_inj.mp h).2
    omega
  have hsubset : insert base ((Finset.range taken.length).image fun k => numbered base (n + k)) ⊆
      taken.toFinset := by
    intro name hname
    rw [mem_toFinset]
    rcases Finset.mem_insert.mp hname with rfl | hname
    · exact hbase
    · obtain ⟨k, hk, rfl⟩ := Finset.mem_image.mp hname
      exact hnumbered k (Finset.mem_range.mp hk)
  have hcard := (Finset.card_le_card hsubset).trans (toFinset_card_le taken)
  rw [Finset.card_insert_of_notMem, Finset.card_image_of_injective _ hinj, Finset.card_range] at hcard
  · omega
  · intro hmem
    obtain ⟨k, -, hk⟩ := Finset.mem_image.mp hmem
    exact numbered_ne base (n + k) hk

end Goav.Lib
